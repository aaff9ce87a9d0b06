import SchemaMigration.Proofs.LoweringFaults
import SchemaMigration.Text.Enclosed

/-!
The values of an enumeration, read from the text in which the database keeps them. The database
writes a single quote in a value twice, but the values are what stands between quotes, so a value is
cut at its quotes.
-/

namespace SchemaMigration

/-- A text as the database writes it: between single quotes, and each of its own quotes twice. -/
def databaseQuoted (cs : List Char) : List Char :=
  '\'' :: cs.flatMap (fun c => if c = '\'' then ['\'', '\''] else [c]) ++ ['\'']

def enumerationParams (values : List String) : String :=
  String.ofList ('(' :: [','].intercalate (values.map (databaseQuoted ·.toList)) ++ [')'])

def quotePieces (s : String) : List String :=
  (s.toList.splitOn '\'').map String.ofList

section

variable {mark : Char}

theorem segments_eq_splitOn (cs : List Char) : segments mark cs = cs.splitOn mark := by
  induction cs with
  | nil => rfl
  | cons c cs ih =>
    rw [segments, ih, List.splitOn_cons_eq_if_modifyHead]
    by_cases hc : c = mark
    · simp [hc]
    · obtain ⟨piece, pieces, hpieces⟩ := List.exists_cons_of_ne_nil (List.splitOn_ne_nil mark cs)
      simp [hc, hpieces]

/-- No piece of a text has a mark in it. -/
theorem not_mem_of_mem_splitOn {cs piece : List Char} (h : piece ∈ cs.splitOn mark) :
    mark ∉ piece := by
  induction cs generalizing piece with
  | nil => simp_all
  | cons c cs ih =>
    rw [List.splitOn_cons_eq_if_modifyHead] at h
    obtain ⟨first, pieces, hpieces⟩ := List.exists_cons_of_ne_nil (List.splitOn_ne_nil mark cs)
    rw [hpieces] at h ih
    by_cases hc : c = mark
    · rw [if_pos (beq_iff_eq.mpr hc)] at h
      rcases List.mem_cons.mp h with rfl | h
      · simp
      · exact ih h
    · rw [if_neg (by simpa using hc), List.modifyHead_cons] at h
      rcases List.mem_cons.mp h with rfl | h
      · rw [List.mem_cons, not_or]
        exact ⟨Ne.symm hc, ih List.mem_cons_self⟩
      · exact ih (List.mem_cons_of_mem first h)

theorem enclosed_eq_nil {cs : List Char} (h : mark ∉ cs) : enclosed mark cs = [] := by
  rw [enclosed, segments_eq_splitOn, List.splitOn_eq_singleton h]
  rfl

/-- What stands between the first two marks is the first piece that is enclosed. -/
theorem enclosed_cons {before piece : List Char} (hbefore : mark ∉ before) (hpiece : mark ∉ piece)
    (rest : List Char) :
    enclosed mark (before ++ mark :: (piece ++ mark :: rest)) = piece :: enclosed mark rest := by
  obtain ⟨first, pieces, hpieces⟩ := List.exists_cons_of_ne_nil (List.splitOn_ne_nil mark rest)
  rw [enclosed, enclosed, segments_eq_splitOn, segments_eq_splitOn,
    List.splitOn_append_cons_self_of_not_mem hbefore,
    List.splitOn_append_cons_self_of_not_mem hpiece, hpieces]
  rfl

end

/-- A text without a quote is written as it is. -/
theorem flatMap_quote_eq_self {cs : List Char} (h : '\'' ∉ cs) :
    cs.flatMap (fun c => if c = '\'' then ['\'', '\''] else [c]) = cs := by
  have hsingle : ∀ c ∈ cs, (if c = '\'' then ['\'', '\''] else [c]) = [c] := by
    intro c hc
    apply if_neg
    rintro rfl
    exact h hc
  rw [List.flatMap_congr hsingle, List.flatMap_singleton']

/-- A quoted text encloses its pieces. -/
theorem enclosed_databaseQuoted {before : List Char} (hbefore : '\'' ∉ before)
    (cs rest : List Char) :
    enclosed '\'' (before ++ (databaseQuoted cs ++ rest)) =
      cs.splitOn '\'' ++ enclosed '\'' rest := by
  by_cases hquote : '\'' ∈ cs
  · obtain ⟨piece, after, hsplit, hpiece⟩ := List.eq_append_cons_of_mem hquote
    have hplain := flatMap_quote_eq_self hpiece
    -- The two quotes for the first one end a piece and begin the quoted rest of the text.
    have htext : before ++ (databaseQuoted cs ++ rest) =
        before ++ '\'' :: (piece ++ '\'' :: ([] ++ (databaseQuoted after ++ rest))) := by
      simp [databaseQuoted, hsplit, hplain]
    have hshorter : after.length < cs.length := by
      rw [hsplit, List.length_append, List.length_cons]
      omega
    rw [htext, enclosed_cons hbefore hpiece, enclosed_databaseQuoted List.not_mem_nil after rest,
      hsplit, List.splitOn_append_cons_self_of_not_mem hpiece]
    rfl
  · have hplain := flatMap_quote_eq_self hquote
    have htext : before ++ (databaseQuoted cs ++ rest) =
        before ++ '\'' :: (cs ++ '\'' :: rest) := by
      simp [databaseQuoted, hplain]
    rw [htext, enclosed_cons hbefore hquote, List.splitOn_eq_singleton hquote]
    rfl
termination_by cs.length

/-- So do several quoted texts with commas between them. -/
theorem enclosed_intercalate (values : List (List Char)) {before : List Char}
    (hbefore : '\'' ∉ before) :
    enclosed '\'' (before ++ ([','].intercalate (values.map databaseQuoted) ++ [')'])) =
      values.flatMap (·.splitOn '\'') := by
  induction values generalizing before with
  | nil =>
    apply enclosed_eq_nil
    simp [hbefore]
  | cons cs values ih =>
    cases values with
    | nil =>
      rw [List.map_singleton, List.intercalate_singleton, enclosed_databaseQuoted hbefore,
        enclosed_eq_nil (by decide), List.flatMap_singleton, List.append_nil]
    | cons cs' values =>
      have hcomma := ih (show '\'' ∉ [','] by decide)
      rw [List.map_cons, List.map_cons, List.intercalate_cons_cons, ← List.map_cons,
        List.append_assoc, List.append_assoc, enclosed_databaseQuoted hbefore, hcomma]
      rfl

namespace Column

/-- Each value comes back as the pieces that its quotes cut it into. -/
theorem values_eq_flatMap {c : Column} {values : List String}
    (h : c.explicitParams = enumerationParams values) :
    c.values = values.flatMap quotePieces := by
  have henclosed := enclosed_intercalate (values.map (·.toList)) (show '\'' ∉ ['('] by decide)
  rw [List.map_map, List.flatMap_map] at henclosed
  have hparams : c.explicitParams.toList =
      ['('] ++ ([','].intercalate (values.map (databaseQuoted ·.toList)) ++ [')']) := by
    rw [h, enumerationParams, String.toList_ofList]
    rfl
  rw [Column.values, hparams]
  refine (congrArg (List.map String.ofList) henclosed).trans ?_
  rw [List.map_flatMap]
  rfl

/-- A value without a quote comes back as it was. -/
theorem quotePieces_eq_singleton {s : String} (h : '\'' ∉ s.toList) : quotePieces s = [s] := by
  rw [quotePieces, List.splitOn_eq_singleton h, List.map_singleton, String.ofList_toList]

/-- The values are kept exactly if no quote stands in them, for none stands in what is read. -/
theorem flatMap_quotePieces_eq_self_iff {values : List String} :
    values.flatMap quotePieces = values ↔ ∀ s ∈ values, '\'' ∉ s.toList := by
  constructor
  · intro h s hs
    rw [← h] at hs
    obtain ⟨t, _, hpiece⟩ := List.mem_flatMap.mp hs
    obtain ⟨piece, hsplit, rfl⟩ := List.mem_map.mp hpiece
    rw [String.toList_ofList]
    exact not_mem_of_mem_splitOn hsplit
  · intro h
    have hsingle : ∀ s ∈ values, quotePieces s = [s] :=
      fun s hs => quotePieces_eq_singleton (h s hs)
    rw [List.flatMap_congr hsingle, List.flatMap_singleton']

/-- The values that a column reads from the database's text for some values are the pieces of these
between their single quotes, so they are the same values exactly if these have no quote. If the
column is an enumeration or a set, it is declared with the values that are read, in order, unless an
index on it has no category. -/
theorem values_of_enumerationParams (t : Table) (c : Column) (values : List String)
    (hparams : c.explicitParams = enumerationParams values) :
    c.values = values.flatMap quotePieces ∧
      (c.values = values ↔ ∀ s ∈ values, '\'' ∉ s.toList) ∧
      (c.typeName = "enum" ∨ c.typeName = "set" →
        (∃ d, t.columnDefinition c = .ok d ∧ d.method = c.typeName ∧
          d.args = [.string c.name, .list ((values.flatMap quotePieces).map .string)]) ∨
        ∃ i ∈ t.columnIndices c, i.category? = none ∧
          t.columnDefinition c = .error (.invalidIndexType i.indexType i.name)) := by
  have hvalues := values_eq_flatMap hparams
  refine ⟨hvalues, hvalues ▸ flatMap_quotePieces_eq_self_iff, fun htype => ?_⟩
  have hnamed : (c.typeName, .enumerated c.typeName) ∈ ColumnType.named := by
    rcases htype with htype | htype <;> rw [htype] <;> decide
  cases hresult : t.columnDefinition c with
  | ok d =>
    obtain ⟨type, htype', hmethod, hargs, _⟩ := Table.columnDefinition_eq_ok_but_indices hresult
    have henumerated := ColumnType.ofName?_eq_some_iff.mpr hnamed
    obtain rfl : type = .enumerated c.typeName := Option.some.inj (htype'.symm.trans henumerated)
    refine Or.inl ⟨d, rfl, hmethod, ?_⟩
    rw [hargs, ← hvalues]
    rfl
  | error e =>
    obtain ⟨i, hi, hnone, rfl⟩ := Table.columnDefinition_eq_error_of_named hnamed hresult
    exact Or.inr ⟨i, hi, hnone, rfl⟩

def sizeColumn : Column where
  name := "size"
  simpleType := "com.mysql.rdbms.mysql.datatype.set"
  explicitParams := enumerationParams ["a,b", "", "6'", ")\\("]

/-- The value `6'` is cut at its quote; the other values come back as they were. -/
theorem values_of_sizeColumn :
    sizeColumn.explicitParams = enumerationParams ["a,b", "", "6'", ")\\("] ∧
      sizeColumn.explicitParams = "('a,b','','6''',')\\(')" ∧
      sizeColumn.values = ["a,b", "", "6", "", ")\\("] ∧
      ((∃ d, ({} : Table).columnDefinition sizeColumn = .ok d ∧ d.method = "set" ∧
          d.args = [.string "size",
            .list ((["a,b", "", "6'", ")\\("].flatMap quotePieces).map .string)]) ∨
        ∃ i ∈ ({} : Table).columnIndices sizeColumn, i.category? = none ∧
          ({} : Table).columnDefinition sizeColumn =
            .error (.invalidIndexType i.indexType i.name)) := by
  have hvalues := values_of_enumerationParams {} sizeColumn _ rfl
  have htype : sizeColumn.typeName = "set" := by decide +kernel
  refine ⟨rfl, by decide +kernel, hvalues.1.trans (by decide +kernel), ?_⟩
  exact htype ▸ hvalues.2.2 (Or.inr htype)

/-- A value with a quote in it falls apart, although the database writes it as it should. -/
theorem values_ne_of_quote :
    enumerationParams ["it's"] = "('it''s')" ∧
      ({ explicitParams := "('it''s')" } : Column).values = ["it", "s"] ∧
      ({ explicitParams := enumerationParams ["it's"] } : Column).values ≠ ["it's"] := by
  decide +kernel

end Column
end SchemaMigration
