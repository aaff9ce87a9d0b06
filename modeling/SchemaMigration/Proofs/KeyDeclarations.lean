import SchemaMigration.Proofs.IndexCoverage

namespace SchemaMigration

theorem eq_of_countP_le_one {α : Type} {p : α → Bool} {xs : List α} (h : xs.countP p ≤ 1) {x y : α}
    (hx : x ∈ xs) (hpx : p x = true) (hy : y ∈ xs) (hpy : p y = true) : x = y := by
  rw [List.countP_eq_length_filter] at h
  have hxf : x ∈ xs.filter p := List.mem_filter.mpr ⟨hx, hpx⟩
  have hyf : y ∈ xs.filter p := List.mem_filter.mpr ⟨hy, hpy⟩
  have hlength : (xs.filter p).length = 1 := by
    have hpos := List.length_pos_of_mem hxf
    omega
  obtain ⟨z, hz⟩ := List.length_eq_one_iff.mp hlength
  rw [hz, List.mem_singleton] at hxf hyf
  exact hxf.trans hyf.symm

theorem countP_eq_of_forall₂ {α β : Type} {p : α → Bool} {q : β → Bool} {xs : List α} {ys : List β}
    (h : List.Forall₂ (fun x y => p x = q y) xs ys) : xs.countP p = ys.countP q := by
  induction h with
  | nil => rfl
  | cons hxy _ ih => rw [List.countP_cons, List.countP_cons, hxy, ih]

theorem countP_eq_flatMap {α β γ : Type} {p : α → Bool} {q : γ → Bool} {f : β → List γ}
    {xs : List α} {ys : List β}
    (h : List.Forall₂ (fun x y => (f y).countP q = if p x then 1 else 0) xs ys) :
    xs.countP p = (ys.flatMap f).countP q := by
  induction h with
  | nil => rfl
  | cons hxy _ ih =>
    rw [List.countP_cons, List.flatMap_cons, List.countP_append, hxy, ih, Nat.add_comm]

def Column.countsAsKey (c : Column) : Bool :=
  match ColumnType.ofName? c.typeName with
  | some (.integer _) => c.isUnsigned && c.autoIncrement
  | _ => false

def Index.declaresPrimary (i : Index) : Bool :=
  i.category? = some .primary

/-- The number of declarations of a primary key among the statements of a table: methods of counting
columns, chained calls, and statements of their own. -/
def keyDeclarations (columns : List ColumnDefinition) (indices : List IndexDefinition) : Nat :=
  columns.countP (·.declaresKey) + (columns.flatMap (·.modifiers)).countP (·.1 = .primary) +
    indices.countP (·.method = Modifier.primary.method)

namespace ColumnDefinition

theorem declaresKey_congr {d d' : ColumnDefinition} (h : d.method = d'.method) :
    d.declaresKey = d'.declaresKey := by
  rw [declaresKey, declaresKey, h]

/-- A declaration has one chained call of a kind, or none. -/
theorem countP_modifiers (d : ColumnDefinition) (k : Modifier) :
    d.modifiers.countP (·.1 = k) = if (d.modifier? k).isSome then 1 else 0 := by
  have hcount : Modifier.all.countP (· = k) = 1 := by
    cases k <;> decide
  have hmatch (k' : Modifier) :
      (((d.modifier? k').map (k', ·)).map fun m => decide (m.1 = k)).getD false =
        decide (k' = k ∧ (d.modifier? k).isSome = true) := by
    by_cases hk : k' = k
    · subst hk
      cases d.modifier? k' <;> simp
    · cases d.modifier? k' <;> simp [hk]
  rw [modifiers, List.countP_filterMap]
  simp only [hmatch]
  cases (d.modifier? k).isSome with
  | false => simp
  | true => simpa using hcount

end ColumnDefinition

namespace ColumnType

def keyMethods : ColumnType → List String
  | integer size => ["id", size.counting]
  | _ => []

/-- A method of a type that declares a key is one of its key methods. -/
theorem mem_keyMethods_of_mem_named :
    ∀ p ∈ named, ∀ m ∈ p.2.methods,
      ({ method := m, args := [] } : ColumnDefinition).declaresKey = true → m ∈ p.2.keyMethods := by
  decide +kernel

theorem method_decimalDefinition (method : String) (c : Column) :
    (decimalDefinition method c).method ∈ (decimal method).methods := by
  rw [decimalDefinition, methods]
  cases c.isUnsigned <;> simp

theorem method_stringDefinition (method : String) (c : Column) :
    (stringDefinition method c).method ∈ (string method).methods := by
  rw [stringDefinition, methods]
  split
  · simp
  · split <;> simp

theorem declaresKey_integerCall (size : IntegerSize) (unsigned counting : Bool) (name : String) :
    ({ method := (size.call unsigned counting name).1, args := [] } :
        ColumnDefinition).declaresKey =
      (unsigned && counting) := by
  have hcounting :
      ({ method := size.counting, args := [] } : ColumnDefinition).declaresKey = true := by
    cases size <;> decide +kernel
  have hunsigned :
      ({ method := size.unsigned, args := [] } : ColumnDefinition).declaresKey = false := by
    cases size <;> decide +kernel
  have hforeign :
      ({ method := "foreignId", args := [] } : ColumnDefinition).declaresKey = false := by
    decide +kernel
  have hsigned :
      ({ method := size.signed, args := [] } : ColumnDefinition).declaresKey = false := by
    cases size <;> decide +kernel
  unfold IntegerSize.call
  split
  · split
    · rfl
    · exact hcounting
  · split
    · exact hforeign
    · exact hunsigned
  · simpa using hsigned

/-- Of all columns that have a type, the unsigned integers that count are declared as keys. -/
theorem declaresKey_definition {c : Column} {type : ColumnType}
    (h : ofName? c.typeName = some type) : (type.definition c).declaresKey = c.countsAsKey := by
  -- Of a type without methods for keys no method declares one, whatever the column is.
  have hother (hkeys : type.keyMethods = []) (hm : (type.definition c).method ∈ type.methods) :
      (type.definition c).declaresKey = false := by
    rw [← Bool.not_eq_true]
    intro hkey
    have hmethod := mem_keyMethods_of_mem_named _ (ofName?_eq_some_iff.mp h) _ hm
      ((ColumnDefinition.declaresKey_congr rfl).trans hkey)
    rw [hkeys] at hmethod
    cases hmethod
  rw [Column.countsAsKey, h]
  cases type with
  | integer size =>
    rw [← declaresKey_integerCall size c.isUnsigned c.autoIncrement c.name]
    exact ColumnDefinition.declaresKey_congr (ColumnDefinition.method_setSome _ _ _)
  | decimal method => exact hother rfl (method_decimalDefinition method c)
  | string method => exact hother rfl (method_stringDefinition method c)
  | time method => exact hother rfl List.mem_cons_self
  | enumerated method => exact hother rfl List.mem_cons_self
  | residual method => exact hother rfl List.mem_cons_self

end ColumnType

namespace Table

/-- The method declares a key if the column counts as one. -/
theorem declaresKey_columnDefinition {t : Table} {c : Column} {d : ColumnDefinition}
    (h : t.columnDefinition c = .ok d) : d.declaresKey = c.countsAsKey := by
  obtain ⟨type, indexed, htype, hindexed, rfl⟩ := columnDefinition_eq_ok h
  have hkey := (ColumnDefinition.modifier?_addIndices hindexed .primary).1
  rw [← ColumnType.declaresKey_definition htype]
  simpa [completeDefinition, plainDefinition] using hkey

def chainsPrimary (t : Table) (c : Column) : Bool :=
  -- A counting column is a key by its method already.
  !c.countsAsKey && (t.columnIndices c).any (·.declaresPrimary)

/-- The chained call declares one if the column does not count, but is alone in a primary index. -/
theorem isSome_primary_columnDefinition {t : Table} {c : Column} {d : ColumnDefinition}
    (h : t.columnDefinition c = .ok d) :
    (d.modifier? .primary).isSome = t.chainsPrimary c := by
  have hmodifier := modifier?_columnDefinition_index h .primary
  rw [declaresKey_columnDefinition h] at hmodifier
  change d.modifier? .primary = _ at hmodifier
  rw [hmodifier, chainsPrimary]
  cases c.countsAsKey with
  | true => simp
  | false =>
    have hlast : (lastOfCategory .primary (t.columnIndices c)).isSome =
        (t.columnIndices c).any (·.declaresPrimary) := by
      rw [lastOfCategory, Bool.eq_iff_iff, List.getLast?_isSome]
      simp [Index.declaresPrimary]
    simp [hlast]

/-- The declarations of a primary key are counted by the columns and indices of the table. -/
theorem keyDeclarations_eq {t : Table} {columns : List ColumnDefinition}
    {indices : List IndexDefinition} (h : t.definitions = .ok (columns, indices)) :
    keyDeclarations columns indices =
      t.columns.countP (·.countsAsKey) +
        (t.columns.countP t.chainsPrimary + t.tableIndices.countP (·.declaresPrimary)) := by
  obtain ⟨hcolumns, hindices⟩ := definitions_eq_ok_iff.mp h
  rw [mapM_eq_ok_iff] at hcolumns hindices
  have hkeys : t.columns.countP (·.countsAsKey) = columns.countP (·.declaresKey) :=
    countP_eq_of_forall₂ (hcolumns.imp fun c d hd => (declaresKey_columnDefinition hd).symm)
  have hchained : t.columns.countP t.chainsPrimary =
      (columns.flatMap (·.modifiers)).countP (·.1 = .primary) := by
    apply countP_eq_flatMap
    refine hcolumns.imp fun c d hd => ?_
    rw [ColumnDefinition.countP_modifiers, isSome_primary_columnDefinition hd]
  have hseparate : t.tableIndices.countP (·.declaresPrimary) =
      indices.countP (·.method = Modifier.primary.method) := by
    apply countP_eq_of_forall₂
    refine hindices.imp fun i d hd => ?_
    obtain ⟨k, hk, hmethod, _⟩ := indexDefinition_eq_ok hd
    rw [Index.declaresPrimary, hk, hmethod]
    cases k <;> decide
  rw [keyDeclarations, hkeys, hchained, hseparate, Nat.add_assoc]

theorem isSome_onlyColumn? (i : Index) : i.onlyColumn?.isSome = i.spansOneColumn := by
  cases i with
  | mk id name comment columns =>
    match columns with
    | [] => rfl
    | [x] => rfl
    | x :: y :: rest => simp [Index.onlyColumn?, Index.spansOneColumn]

theorem chainsPrimary_iff {t : Table} {c : Column} :
    t.chainsPrimary c = true ↔
      c.countsAsKey = false ∧ ∃ i ∈ t.indices, i.declaresPrimary = true ∧
        i.onlyColumn? = some c.id := by
  simp only [chainsPrimary, Bool.and_eq_true, Bool.not_eq_true', List.any_eq_true,
    mem_columnIndices]
  constructor
  · rintro ⟨hcount, i, ⟨hi, honly⟩, hp⟩
    exact ⟨hcount, i, hi, hp, honly⟩
  · rintro ⟨hcount, i, hi, hp, honly⟩
    exact ⟨hcount, i, ⟨hi, honly⟩, hp⟩

theorem mem_tableIndices {t : Table} {i : Index} :
    i ∈ t.tableIndices ↔ i ∈ t.indices ∧ i.spansOneColumn = false := by
  simp [tableIndices]

def primaryDeclarations (t : Table) : Nat :=
  t.columns.countP t.chainsPrimary + t.tableIndices.countP (·.declaresPrimary)

/-- A primary index is declared unless its only column counts or is missing. -/
theorem primaryDeclarations_pos_iff {t : Table} :
    0 < t.primaryDeclarations ↔
      ∃ i ∈ t.indices, i.declaresPrimary = true ∧ (i.spansOneColumn = true →
        ∃ c ∈ t.columns, c.countsAsKey = false ∧ i.onlyColumn? = some c.id) := by
  rw [primaryDeclarations, Nat.add_pos_iff_pos_or_pos, List.countP_pos_iff, List.countP_pos_iff]
  constructor
  · rintro (⟨c, hc, hchain⟩ | ⟨i, hi, hp⟩)
    · obtain ⟨hcount, i, hi, hp, honly⟩ := chainsPrimary_iff.mp hchain
      exact ⟨i, hi, hp, fun _ => ⟨c, hc, hcount, honly⟩⟩
    · obtain ⟨hi, hseparate⟩ := mem_tableIndices.mp hi
      exact ⟨i, hi, hp, fun hspans => absurd (hseparate.symm.trans hspans) (by decide)⟩
  · rintro ⟨i, hi, hp, hspans⟩
    cases hs : i.spansOneColumn with
    | false => exact Or.inr ⟨i, mem_tableIndices.mpr ⟨hi, hs⟩, hp⟩
    | true =>
      obtain ⟨c, hc, hcount, honly⟩ := hspans hs
      exact Or.inl ⟨c, hc, chainsPrimary_iff.mpr ⟨hcount, i, hi, hp, honly⟩⟩

/-- A table with one primary index declares it once at most: at one column or on its own. -/
theorem primaryDeclarations_le {t : Table} (hids : (t.columns.map (·.id)).Nodup)
    (hprimary : t.indices.countP (·.declaresPrimary) ≤ 1) : t.primaryDeclarations ≤ 1 := by
  have hseparate : t.tableIndices.countP (·.declaresPrimary) ≤ 1 :=
    Nat.le_trans List.filter_sublist.countP_le hprimary
  unfold primaryDeclarations
  by_cases hchain : ∃ c ∈ t.columns, t.chainsPrimary c = true
  · obtain ⟨c, hc, hchain⟩ := hchain
    obtain ⟨_, i, hi, hp, honly⟩ := chainsPrimary_iff.mp hchain
    have hspans : i.spansOneColumn = true := by rw [← isSome_onlyColumn?, honly]; rfl
    -- The one primary index belongs to this column, so to no other one and not to the table.
    have hnone : t.tableIndices.countP (·.declaresPrimary) = 0 := by
      rw [List.countP_eq_zero]
      intro j hj hpj
      obtain ⟨hj, hsj⟩ := mem_tableIndices.mp hj
      rw [eq_of_countP_le_one hprimary hj hpj hi hp, hspans] at hsj
      cases hsj
    have hone : t.columns.countP t.chainsPrimary ≤ 1 :=
      calc t.columns.countP t.chainsPrimary
          ≤ t.columns.countP (·.id = c.id) := by
            apply List.countP_mono_left
            intro c' _ hchain'
            obtain ⟨_, j, hj, hpj, honly'⟩ := chainsPrimary_iff.mp hchain'
            rw [eq_of_countP_le_one hprimary hj hpj hi hp, honly] at honly'
            exact decide_eq_true (Option.some.inj honly').symm
        _ ≤ 1 := by
            rw [List.countP_eq_length_filter]
            exact length_filter_id_le hids c.id
    omega
  · have hnone : t.columns.countP t.chainsPrimary = 0 := by
      rw [List.countP_eq_zero]
      intro c hc h
      exact hchain ⟨c, hc, h⟩
    omega

theorem autoIncrement_of_countsAsKey {c : Column} (h : c.countsAsKey = true) :
    c.autoIncrement = true := by
  unfold Column.countsAsKey at h
  split at h
  · exact (Bool.and_eq_true _ _ ▸ h).2
  · cases h

/-- A table with one primary index and one column that counts declares its key twice if the column
is declared as a key and the index is not the one on this column alone, and else once at most. -/
theorem keyDeclarations_of_createTable (t : Table) (m m' : Migration)
    (hids : (t.columns.map (·.id)).Nodup)
    (hprimary : t.indices.countP (·.declaresPrimary) ≤ 1)
    (hcounting : t.columns.countP (·.autoIncrement) ≤ 1)
    (h : m.apply (.createTable t) = (.ok (), m')) :
    ∃ columns indices, t.definitions = .ok (columns, indices) ∧
      m'.text = m.text ++ (Script.lineStart (m.depth * m.indentWidth) ++
        createSource t.name columns indices m.depth m.indentWidth) ∧
      keyDeclarations columns indices ≤ 2 ∧
      (keyDeclarations columns indices = 2 ↔
        ∃ c ∈ t.columns, c.countsAsKey = true ∧ ∃ i ∈ t.indices, i.declaresPrimary = true ∧
          i.onlyColumn? ≠ some c.id ∧
          (i.spansOneColumn = true → ∃ c' ∈ t.columns, i.onlyColumn? = some c'.id)) := by
  obtain ⟨columns, indices, hdefinitions, htext⟩ := Migration.createTable_eq_ok h
  refine ⟨columns, indices, hdefinitions, htext, ?_⟩
  have hsum : keyDeclarations columns indices =
      t.columns.countP (·.countsAsKey) + t.primaryDeclarations := keyDeclarations_eq hdefinitions
  have hkey : t.columns.countP (·.countsAsKey) ≤ 1 :=
    Nat.le_trans (List.countP_mono_left fun c _ hc => autoIncrement_of_countsAsKey hc) hcounting
  have hindex : t.primaryDeclarations ≤ 1 := primaryDeclarations_le hids hprimary
  -- Neither summand exceeds one, so the sum is two exactly if both are positive.
  have htwo : keyDeclarations columns indices = 2 ↔
      0 < t.columns.countP (·.countsAsKey) ∧ 0 < t.primaryDeclarations := by omega
  refine ⟨by omega, ?_⟩
  rw [htwo, List.countP_pos_iff, primaryDeclarations_pos_iff]
  constructor
  · rintro ⟨⟨c, hc, hcount⟩, i, hi, hp, hspans⟩
    refine ⟨c, hc, hcount, i, hi, hp, ?_, ?_⟩
    · intro honly
      obtain ⟨c', hc', hcount', honly'⟩ := hspans (by rw [← isSome_onlyColumn?, honly]; rfl)
      have hsame : c' = c := List.inj_on_of_nodup_map hids hc' hc
        (Option.some.inj (honly'.symm.trans honly))
      rw [hsame, hcount] at hcount'
      cases hcount'
    · intro hone
      obtain ⟨c', hc', _, honly'⟩ := hspans hone
      exact ⟨c', hc', honly'⟩
  · rintro ⟨c, hc, hcount, i, hi, hp, hother, hspans⟩
    refine ⟨⟨c, hc, hcount⟩, i, hi, hp, ?_⟩
    intro hone
    obtain ⟨c', hc', honly'⟩ := hspans hone
    refine ⟨c', hc', ?_, honly'⟩
    -- The column of the index cannot count, since only `c` does, which is another one.
    rw [← Bool.not_eq_true]
    intro hcount'
    have hsame : c' = c := eq_of_countP_le_one hcounting hc' (autoIncrement_of_countsAsKey hcount')
      hc (autoIncrement_of_countsAsKey hcount)
    rw [hsame] at honly'
    exact hother honly'

def doublyKeyed : Table where
  name := "t"
  columns :=
    [{ id := "1", name := "id", simpleType := "bigint", isNotNull := true, autoIncrement := true
       flags := ["UNSIGNED"] },
      { id := "2", name := "tenant", simpleType := "int", isNotNull := true }]
  indices :=
    [{ name := "PRIMARY", indexType := "PRIMARY"
       columns := [{ referencedColumn := "1" }, { referencedColumn := "2" }] }]

def doublyKeyedColumns : List ColumnDefinition :=
  [{ method := "id", args := [] }, { method := "integer", args := [.string "tenant"] }]

def doublyKeyedIndex : IndexDefinition :=
  { method := "primary", columns := ["id", "tenant"] }

theorem definitions_doublyKeyed :
    doublyKeyed.definitions = .ok (doublyKeyedColumns, [doublyKeyedIndex]) :=
  rfl

/-- The counting column and the index of both columns declare a key each. -/
theorem keyDeclarations_doublyKeyed :
    (doublyKeyed.columns.map (·.id)).Nodup ∧
      doublyKeyed.indices.countP (·.declaresPrimary) ≤ 1 ∧
      doublyKeyed.columns.countP (·.autoIncrement) ≤ 1 ∧
      ∃ m', ({} : Migration).apply (.createTable doublyKeyed) = (.ok (), m') ∧
        ∃ columns indices, doublyKeyed.definitions = .ok (columns, indices) ∧
          m'.text = "" ++ (Script.lineStart (0 * 4) ++
            createSource doublyKeyed.name columns indices 0 4) ∧
          keyDeclarations columns indices ≤ 2 ∧
          (keyDeclarations columns indices = 2 ↔
            ∃ c ∈ doublyKeyed.columns, c.countsAsKey = true ∧
              ∃ i ∈ doublyKeyed.indices, i.declaresPrimary = true ∧ i.onlyColumn? ≠ some c.id ∧
                (i.spansOneColumn = true →
                  ∃ c' ∈ doublyKeyed.columns, i.onlyColumn? = some c'.id)) := by
  have hids : (doublyKeyed.columns.map (·.id)).Nodup := by decide
  have hprimary : doublyKeyed.indices.countP (·.declaresPrimary) ≤ 1 := by decide
  have hcounting : doublyKeyed.columns.countP (·.autoIncrement) ≤ 1 := by decide
  have happly := Migration.apply_createTable {} doublyKeyed
  rw [definitions_doublyKeyed] at happly
  exact ⟨hids, hprimary, hcounting, _, happly,
    keyDeclarations_of_createTable doublyKeyed {} _ hids hprimary hcounting happly⟩

/-- A table with a single primary index and a single counting column can declare its key twice. -/
theorem keyDeclarations_eq_two :
    (doublyKeyed.columns.map (·.id)).Nodup ∧
      doublyKeyed.indices.countP (·.declaresPrimary) = 1 ∧
      doublyKeyed.columns.countP (·.autoIncrement) = 1 ∧
      (∃ m', ({} : Migration).apply (.createTable doublyKeyed) = (.ok (), m')) ∧
      doublyKeyed.definitions = .ok (doublyKeyedColumns, [doublyKeyedIndex]) ∧
      createSource "t" doublyKeyedColumns [doublyKeyedIndex] 0 4 =
        "Schema::create('t', function (Blueprint $table) \x7b\n    $table->id();\n" ++
          "    $table->integer(\"tenant\");\n" ++
          "    $table->primary([\"id\", \"tenant\"]);\n\x7d);" ∧
      keyDeclarations doublyKeyedColumns [doublyKeyedIndex] = 2 := by
  have happly := Migration.apply_createTable {} doublyKeyed
  rw [definitions_doublyKeyed] at happly
  exact ⟨by decide, by decide, by decide, ⟨_, happly⟩, definitions_doublyKeyed, by decide +kernel,
    by decide +kernel⟩

end Table
end SchemaMigration
