import Mathlib.Data.List.Induction
import SchemaMigration.Migration
import SchemaMigration.Proofs.LoweredForm
import SchemaMigration.Proofs.ScriptText

/-!
Runs of migrations. Between two changes a script is at the outermost level, and a change that is
lowered cannot fail while it is written, so each change appends its own text or nothing at all.
-/

namespace SchemaMigration

def LoweringError.OfModel (e : LoweringError) : Prop :=
  (∃ typeName column, e = .unsupportedType typeName column) ∨
    ∃ indexType index, e = .invalidIndexType indexType index

namespace Table

/-- The error of a column is one of the model. -/
theorem ofModel_columnDefinition {t : Table} {c : Column} {e : LoweringError}
    (h : t.columnDefinition c = .error e) : e.OfModel := by
  rcases columnDefinition_eq_error h with rfl | ⟨i, _, rfl⟩
  · exact Or.inl ⟨_, _, rfl⟩
  · exact Or.inr ⟨_, _, rfl⟩

theorem ofModel_indexDefinition {t : Table} {i : Index} {e : LoweringError}
    (h : t.indexDefinition i = .error e) : e.OfModel :=
  Or.inr ⟨_, _, indexDefinition_eq_error h⟩

/-- A table has statements if all of its columns and indices have theirs. -/
theorem definitions_eq_ok_iff {t : Table} {columns : List ColumnDefinition}
    {indices : List IndexDefinition} :
    t.definitions = .ok (columns, indices) ↔
      t.columns.mapM t.columnDefinition = .ok columns ∧
        t.tableIndices.mapM t.indexDefinition = .ok indices := by
  unfold definitions
  constructor
  · intro h
    obtain ⟨ds, hds, hrest⟩ := bind_eq_ok_iff.mp h
    obtain ⟨is, his, hdone⟩ := bind_eq_ok_iff.mp hrest
    cases hdone
    exact ⟨hds, his⟩
  · rintro ⟨hcolumns, hindices⟩
    rw [hcolumns, hindices]
    rfl

theorem ofModel_definitions {t : Table} {e : LoweringError} (h : t.definitions = .error e) :
    e.OfModel := by
  obtain hcolumns | ⟨ds, _, hrest⟩ := bind_eq_error_iff.mp h
  · obtain ⟨_, c, _, _, _, hc⟩ := mapM_eq_error_iff.mp hcolumns
    exact ofModel_columnDefinition hc
  · obtain hindices | ⟨is, _, hdone⟩ := bind_eq_error_iff.mp hrest
    · obtain ⟨_, i, _, _, _, hi⟩ := mapM_eq_error_iff.mp hindices
      exact ofModel_indexDefinition hi
    · cases hdone

theorem wellFormed_definitions {t : Table} {columns : List ColumnDefinition}
    {indices : List IndexDefinition} (h : t.definitions = .ok (columns, indices)) :
    ∀ d ∈ columns, d.WellFormed :=
  forall_mem_of_mapM_eq_ok (definitions_eq_ok_iff.mp h).1
    fun _ _ _ hd => wellFormed_columnDefinition hd

end Table

theorem ColumnDefinition.WellFormed.written {d : ColumnDefinition} (h : d.WellFormed) :
    d.Written where
  args := fun l hl => (h.args l hl).written
  modifiers := by
    intro k args hargs l hl
    by_cases hk : k = .defaultValue
    · subst hk
      obtain ⟨e, rfl⟩ := h.default args hargs
      rw [List.mem_singleton.mp hl]
      exact .raw e
    · exact (h.modifiers k args hk hargs l hl).written

namespace Change

/-- The text of a change at the outermost level, or the reason why it is not lowered. It is known
from the change and the width alone. -/
def source (w : Nat) : Change → Except LoweringError String
  | createTable t => do
    let (columns, indices) ← t.definitions
    return Script.lineStart 0 ++ createSource t.name columns indices 0 w
  | dropTable t => return Script.lineStart 0 ++ dropSource t.name
  | addColumn t c => return (← t.columnDefinition c).source 0 w
  | changeColumn t c => return ((← t.columnDefinition c).set .change []).source 0 w
  | addIndex t i => return (← t.indexDefinition i).source 0 w

/-- A change that is lowered is written by commands that cannot fail. -/
theorem commands_eq_ok {change : Change} {cs : List Command} (h : change.commands = .ok cs) :
    ∃ text : Nat → Nat → String, Command.Writes cs text ∧
      ∀ w, change.source w = .ok (text 0 w) := by
  cases change with
  | createTable t =>
    obtain ⟨⟨columns, indices⟩, hd, hdone⟩ := bind_eq_ok_iff.mp h
    cases hdone
    -- What is lowered is well-formed, so all of its arguments have texts.
    have hcolumns := Table.wellFormed_definitions hd
    refine ⟨_, writes_createCommands t.name columns indices fun d hd => (hcolumns d hd).written, ?_⟩
    intro w
    rw [source, hd, Nat.zero_mul]
    rfl
  | dropTable t =>
    cases h
    exact ⟨_, writes_dropCommands t.name, fun w => by rw [source, Nat.zero_mul]; rfl⟩
  | addColumn t c =>
    obtain ⟨d, hd, hdone⟩ := bind_eq_ok_iff.mp h
    cases hdone
    refine ⟨_, (Table.wellFormed_columnDefinition hd).written.writes, ?_⟩
    intro w
    rw [source, hd]
    rfl
  | changeColumn t c =>
    obtain ⟨d, hd, hdone⟩ := bind_eq_ok_iff.mp h
    cases hdone
    have hmarked : (d.set .change []).WellFormed :=
      (Table.wellFormed_columnDefinition hd).set (by decide) (by simp)
    refine ⟨_, hmarked.written.writes, ?_⟩
    intro w
    rw [source, hd]
    rfl
  | addIndex t i =>
    obtain ⟨d, hd, hdone⟩ := bind_eq_ok_iff.mp h
    cases hdone
    refine ⟨_, d.writes, ?_⟩
    intro w
    rw [source, hd]
    rfl

/-- A change without commands fails for the model, at any width. -/
theorem commands_eq_error {change : Change} {e : LoweringError}
    (h : change.commands = .error e) : e.OfModel ∧ ∀ w, change.source w = .error e := by
  cases change with
  | createTable t =>
    obtain hd | ⟨_, _, hdone⟩ := bind_eq_error_iff.mp h
    · exact ⟨Table.ofModel_definitions hd, fun w => by rw [source, hd]; rfl⟩
    · cases hdone
  | dropTable t => cases h
  | addColumn t c =>
    obtain hd | ⟨_, _, hdone⟩ := bind_eq_error_iff.mp h
    · exact ⟨Table.ofModel_columnDefinition hd, fun w => by rw [source, hd]; rfl⟩
    · cases hdone
  | changeColumn t c =>
    obtain hd | ⟨_, _, hdone⟩ := bind_eq_error_iff.mp h
    · exact ⟨Table.ofModel_columnDefinition hd, fun w => by rw [source, hd]; rfl⟩
    · cases hdone
  | addIndex t i =>
    obtain hd | ⟨_, _, hdone⟩ := bind_eq_error_iff.mp h
    · exact ⟨Table.ofModel_indexDefinition hd, fun w => by rw [source, hd]; rfl⟩
    · cases hdone

end Change

namespace Migration

/-- At the outermost level a change writes its text, or fails and leaves everything as it was. -/
theorem apply_eq (m : Migration) (hdepth : m.depth = 0) (change : Change) :
    (∃ text, change.source m.indentWidth = .ok text ∧
        m.apply change = (.ok (), ⟨m.toScript.write text⟩)) ∨
      ∃ e, change.source m.indentWidth = .error e ∧ e.OfModel ∧
        m.apply change = (.error e, m) := by
  unfold apply
  cases h : change.commands with
  | error e =>
    obtain ⟨he, hsource⟩ := Change.commands_eq_error h
    exact Or.inr ⟨e, hsource m.indentWidth, he, rfl⟩
  | ok cs =>
    obtain ⟨text, hwrites, hsource⟩ := Change.commands_eq_ok h
    refine Or.inl ⟨text 0 m.indentWidth, hsource m.indentWidth, ?_⟩
    simp only [hwrites m.toScript, hdepth]
    rfl

/-- The text of a change alone is the one that a run appends, without the line feeds before it. -/
theorem render_eq (change : Change) (w : Nat) :
    render change w =
      (change.source w).map fun text => String.ofList (text.toList.dropWhile (· = '\n')) := by
  unfold render
  obtain ⟨text, hsource, happly⟩ | ⟨e, hsource, _, happly⟩ :=
    apply_eq { indentWidth := w } rfl change
  · rw [happly, hsource]
    simp [Except.map, Script.write]
  · rw [happly, hsource]
    rfl

/-- A table is created out of the declarations of its columns and indices, at any place of a
migration, or not at all. -/
theorem apply_createTable (m : Migration) (t : Table) :
    m.apply (.createTable t) =
      match t.definitions with
      | .ok (columns, indices) =>
        (.ok (), ⟨m.toScript.write (Script.lineStart (m.depth * m.indentWidth) ++
          createSource t.name columns indices m.depth m.indentWidth)⟩)
      | .error e => (.error e, m) := by
  cases h : t.definitions with
  | error e =>
    rw [apply, Change.commands, h]
    rfl
  | ok definitions =>
    obtain ⟨columns, indices⟩ := definitions
    have hcolumns := Table.wellFormed_definitions h
    have hwrites := writes_createCommands t.name columns indices fun d hd =>
      (hcolumns d hd).written
    rw [apply, Change.commands, h]
    simp only [bind, Except.bind, pure, Except.pure, hwrites m.toScript]
    rfl

/-- A table that is created appends its text, at the depth where the migration is. -/
theorem createTable_eq_ok {m m' : Migration} {t : Table}
    (h : m.apply (.createTable t) = (.ok (), m')) :
    ∃ columns indices, t.definitions = .ok (columns, indices) ∧
      m'.text = m.text ++ (Script.lineStart (m.depth * m.indentWidth) ++
        createSource t.name columns indices m.depth m.indentWidth) := by
  rw [apply_createTable] at h
  cases hdefinitions : t.definitions with
  | error e =>
    rw [hdefinitions] at h
    cases h
  | ok definitions =>
    rw [hdefinitions] at h
    cases h
    exact ⟨definitions.1, definitions.2, rfl, rfl⟩

theorem apply_dropTable (m : Migration) (t : Table) :
    m.apply (.dropTable t) =
      (.ok (), ⟨m.toScript.write (Script.lineStart (m.depth * m.indentWidth) ++
        dropSource t.name)⟩) := by
  unfold apply
  have hcommands : (Change.dropTable t).commands = .ok (dropCommands t.name) := rfl
  simp only [hcommands, writes_dropCommands t.name m.toScript]
  rfl

def run (w : Nat) (changes : List Change) : Migration :=
  changes.foldl (fun m change => (m.apply change).2) { indentWidth := w }

theorem run_append_single (w : Nat) (changes : List Change) (change : Change) :
    run w (changes ++ [change]) = ((run w changes).apply change).2 := by
  simp [run]

/-- Every run ends at the outermost level, with the width it started with and the texts of the
changes that were carried out. -/
theorem run_eq (w : Nat) (changes : List Change) :
    run w changes =
      ⟨{ text := String.join (changes.filterMap fun change => (change.source w).toOption)
         depth := 0
         indentWidth := w }⟩ := by
  -- A run ends with a change at the outermost level, where the run before it ended.
  induction changes using List.reverseRecOn with
  | nil => simp [run]
  | append_singleton changes change ih =>
    rw [run_append_single, List.filterMap_append, String.join_append]
    have hdepth : (run w changes).depth = 0 := by rw [ih]
    have hwidth : (run w changes).indentWidth = w := by rw [ih]
    obtain ⟨text, hsource, happly⟩ | ⟨e, hsource, _, happly⟩ := apply_eq _ hdepth change
    · rw [hwidth] at hsource
      rw [happly, ih]
      simp [Script.write, hsource, Except.toOption]
    · rw [hwidth] at hsource
      rw [happly, ih]
      simp [hsource, Except.toOption]

/-- A run is append-only, and each of its changes is carried out as a whole or not at all. After
any changes, a further one that fails leaves the migration as it was, for a reason that lies in the
model; one that succeeds appends a text that depends on nothing but itself and the width. -/
theorem run_append_only (w : Nat) (changes : List Change) :
    (run w changes).text =
        String.join (changes.filterMap fun change => (change.source w).toOption) ∧
      ∀ change,
        (∀ e, ((run w changes).apply change).1 = .error e →
          change.source w = .error e ∧ ((run w changes).apply change).2 = run w changes ∧
            ((∃ typeName column, e = .unsupportedType typeName column) ∨
              ∃ indexType index, e = .invalidIndexType indexType index)) ∧
        (((run w changes).apply change).1 = .ok () →
          ∃ text, change.source w = .ok text ∧
            ((run w changes).apply change).2.text = (run w changes).text ++ text) := by
  have hdepth : (run w changes).depth = 0 := by rw [run_eq]
  have hwidth : (run w changes).indentWidth = w := by rw [run_eq]
  refine ⟨by rw [run_eq], ?_⟩
  intro change
  obtain ⟨text, hsource, happly⟩ | ⟨e, hsource, he, happly⟩ := apply_eq _ hdepth change
  · rw [hwidth] at hsource
    rw [happly]
    refine ⟨?_, fun _ => ⟨text, hsource, rfl⟩⟩
    intro e h
    cases h
  · rw [hwidth] at hsource
    rw [happly]
    refine ⟨?_, ?_⟩
    · intro e' h
      cases h
      exact ⟨hsource, rfl, he⟩
    · intro h
      cases h

end Migration

theorem dropWhile_lineStart {text : String} (h : text.toList.head? ≠ some '\n') :
    (Script.lineStart 0 ++ text).toList.dropWhile (· = '\n') = text.toList := by
  have hstart : "\n".toList = ['\n'] := rfl
  rw [Script.lineStart_zero, String.toList_append, hstart]
  cases hcs : text.toList with
  | nil => rfl
  | cons c cs =>
    have hc : c ≠ '\n' := by
      rintro rfl
      exact h (by rw [hcs]; rfl)
    simp [hc]

theorem dropWhile_createSource (name : String) (columns : List ColumnDefinition)
    (indices : List IndexDefinition) (w : Nat) :
    (Script.lineStart 0 ++ createSource name columns indices 0 w).toList.dropWhile (· = '\n') =
      (createSource name columns indices 0 w).toList := by
  have hhead (cs : List Char) : ("Schema::create(".toList ++ cs).head? = some 'S' := rfl
  apply dropWhile_lineStart
  unfold createSource
  simp only [String.toList_append, List.append_assoc, hhead]
  decide

/-- The code of a table is the statement that creates it. -/
theorem Table.render_eq (t : Table) (w : Nat) :
    t.render w =
      t.definitions.map fun (columns, indices) => createSource t.name columns indices 0 w := by
  rw [render, Migration.render_eq, Change.source]
  cases t.definitions with
  | error e => rfl
  | ok definitions =>
    simp only [bind, Except.bind, pure, Except.pure, Except.map, dropWhile_createSource,
      String.ofList_toList]

/-- The code of a table is the text of its creation, without the line feed before it. -/
theorem Table.render_eq_ok_iff {t : Table} {w : Nat} {code : String} :
    t.render w = .ok code ↔ ∃ columns indices, t.definitions = .ok (columns, indices) ∧
      code = createSource t.name columns indices 0 w := by
  rw [Table.render_eq]
  constructor
  · intro h
    cases hdefinitions : t.definitions with
    | error e =>
      rw [hdefinitions] at h
      cases h
    | ok definitions =>
      rw [hdefinitions] at h
      cases h
      exact ⟨definitions.1, definitions.2, rfl, rfl⟩
  · rintro ⟨columns, indices, hdefinitions, rfl⟩
    rw [hdefinitions]
    rfl

end SchemaMigration
