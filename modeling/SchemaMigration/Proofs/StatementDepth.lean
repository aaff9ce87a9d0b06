import SchemaMigration.Proofs.IndexCoverage
import SchemaMigration.Proofs.StatementReading

/-!
Statements at different depths. One level deeper a statement has the same lines, each of them
further in by the blanks of a level. So a table that is created as a whole has the text of its
statements written one by one, up to these blanks.
-/

namespace SchemaMigration

def OneLine (text : String) : Prop :=
  '\n' ∉ text.toList

instance (text : String) : Decidable (OneLine text) :=
  inferInstanceAs (Decidable ('\n' ∉ text.toList))

def indented (blanks : Nat) (text : String) : String :=
  String.ofList (text.toList.flatMap fun c =>
    if c = '\n' then '\n' :: List.replicate blanks ' ' else [c])

example : indented 2 "\na\n  ->b;" = "\n  a\n    ->b;" := by
  decide +kernel

theorem indented_append (blanks : Nat) (a b : String) :
    indented blanks (a ++ b) = indented blanks a ++ indented blanks b := by
  simp [indented]

theorem indented_join {α : Type} (blanks : Nat) (xs : List α) (text : α → String) :
    indented blanks (String.join (xs.map text)) =
      String.join (xs.map fun x => indented blanks (text x)) := by
  induction xs with
  | nil => rfl
  | cons x xs ih =>
    rw [List.map_cons, List.map_cons, String.join_cons, String.join_cons, indented_append, ih]

/-- A text without a line feed stays. -/
theorem indented_oneLine (blanks : Nat) {text : String} (h : OneLine text) :
    indented blanks text = text := by
  have hsame : text.toList.flatMap (fun c =>
      if c = '\n' then '\n' :: List.replicate blanks ' ' else [c]) =
        text.toList.flatMap fun c => [c] := by
    apply List.flatMap_congr
    intro c hc
    exact if_neg (ne_of_mem_of_not_mem hc h)
  rw [indented, hsame, List.flatMap_singleton', String.ofList_toList]

/-- The start of a line goes further in. -/
theorem indented_lineStart (blanks n : Nat) :
    indented blanks (Script.lineStart n) = Script.lineStart (blanks + n) := by
  have hblanks : ∀ c ∈ List.replicate n ' ', c ≠ '\n' := by
    intro c hc
    rw [List.eq_of_mem_replicate hc]
    decide
  have hrest : OneLine (String.ofList (List.replicate n ' ')) := by
    rw [OneLine, String.toList_ofList]
    exact fun h => hblanks '\n' h rfl
  rw [Script.lineStart_eq, indented_append, indented_oneLine blanks hrest]
  simp [Script.lineStart, indented, ← String.toList_inj]

theorem OneLine.append {a b : String} (ha : OneLine a) (hb : OneLine b) : OneLine (a ++ b) := by
  rw [OneLine, String.toList_append, List.mem_append]
  exact not_or.mpr ⟨ha, hb⟩

theorem oneLine_of_kind {p : Char → Prop} {text : String} (h : ∀ c ∈ text.toList, p c)
    (hfeed : ¬p '\n') : OneLine text :=
  fun hmem => hfeed (h '\n' hmem)

theorem oneLine_word {text : String} (h : isWord text = true) : OneLine text :=
  oneLine_of_kind (isLetter_of_isWord h) (by decide)

/-- Between double quotes a line feed is written as an escape. -/
theorem oneLine_doubleQuoted (s : String) : OneLine (doubleQuoted s) := by
  have hdigits : ∀ n < 0x20, '\n' ∉ octalDigits n := by decide
  have hescape (c : Char) : '\n' ∉ escapeDouble c := by
    unfold escapeDouble
    split_ifs with h1 h2 h3 h4 h5 h6 h7
    · decide
    · decide
    · decide
    · decide
    · decide
    · rw [List.mem_cons, List.mem_singleton]
      exact not_or.mpr ⟨by decide, fun h => h1 h.symm⟩
    · rw [List.mem_cons]
      exact not_or.mpr ⟨by decide, hdigits c.toNat h7⟩
    · rw [List.mem_singleton]
      exact fun h => h1 h.symm
  rw [OneLine, toList_doubleQuoted]
  simp [hescape]

theorem oneLine_int64Text (n : Int64) : OneLine (int64Text n) :=
  oneLine_of_kind (fun _ => kind_of_mem_int64Text) (by decide)

namespace Literal

theorem oneLine_itemsSource {items : List Literal} (h : ∀ l ∈ items, OneLine l.source) :
    OneLine (itemsSource items) := by
  cases items with
  | nil => exact List.not_mem_nil
  | cons item rest =>
    have hrest : OneLine (restSource rest) := by
      rw [OneLine, toList_restSource, List.mem_flatMap]
      rintro ⟨l, hl, hmem⟩
      have hsource : OneLine l.source := h l (List.mem_cons_of_mem item hl)
      simp only [List.mem_cons] at hmem
      rcases hmem with hmem | hmem | hmem
      · exact absurd hmem (by decide)
      · exact absurd hmem (by decide)
      · exact hsource hmem
    exact (h item List.mem_cons_self).append hrest

/-- Texts and numbers are written on one line, and so are lists of them. -/
theorem Plain.oneLine {l : Literal} (h : l.Plain) : OneLine l.source := by
  induction h with
  | string s => exact oneLine_doubleQuoted s
  | int n => exact oneLine_int64Text n
  | list items _ ih =>
    have hitems : OneLine (itemsSource items) := oneLine_itemsSource ih
    have hopen : OneLine "[" := by decide
    have hclose : OneLine "]" := by decide
    exact (hopen.append hitems).append hclose

end Literal

theorem oneLine_callText {method : String} {args : List Literal} (hmethod : OneLine method)
    (hargs : ∀ l ∈ args, OneLine l.source) :
    OneLine (Script.callText method (args.map Literal.source)) := by
  have harrow : OneLine "->" := by decide
  have hopen : OneLine "(" := by decide
  have hclose : OneLine ")" := by decide
  rw [Script.callText, ← Literal.itemsSource_eq_intercalate]
  exact (((harrow.append hmethod).append hopen).append (Literal.oneLine_itemsSource hargs)).append
    hclose

namespace ColumnDefinition

structure Unbroken (d : ColumnDefinition) : Prop where
  method : OneLine d.method
  args : ∀ l ∈ d.args, OneLine l.source
  modifiers : ∀ m ∈ d.modifiers, ∀ l ∈ m.2, OneLine l.source

/-- The line of a chained call is indented by one level. -/
theorem indented_modifierSource {m : Modifier × List Literal} (h : ∀ l ∈ m.2, OneLine l.source)
    (depth w : Nat) : indented w (modifierSource depth w m) = modifierSource (depth + 1) w m := by
  have hcall := oneLine_callText (oneLine_word (isWord_modifier m.1)) h
  rw [modifierSource, modifierSource, indented_append, indented_lineStart,
    indented_oneLine w hcall, Nat.succ_mul, Nat.add_comm w]

/-- One level deeper every line of a statement is further in by the blanks of the level. -/
theorem Unbroken.source_succ {d : ColumnDefinition} (h : d.Unbroken) (depth w : Nat) :
    d.source (depth + 1) w = indented w (d.source depth w) := by
  have hcall : OneLine (callSource d.method d.args) :=
    OneLine.append (by decide) (oneLine_callText h.method h.args)
  have hend : OneLine ";" := by decide
  have hchain : d.modifiers.map (fun m => indented w (modifierSource (depth + 1) w m)) =
      d.modifiers.map (modifierSource (depth + 1 + 1) w) := by
    apply List.map_congr_left
    intro m hm
    exact indented_modifierSource (h.modifiers m hm) (depth + 1) w
  symm
  calc indented w (d.source depth w)
      = indented w (Script.lineStart (depth * w)) ++ callSource d.method d.args ++
          String.join (d.modifiers.map (fun m => indented w (modifierSource (depth + 1) w m))) ++
          ";" := by
        rw [source, indented_append, indented_append, indented_append, indented_oneLine w hcall,
          indented_oneLine w hend, indented_join]
    _ = d.source (depth + 1) w := by
        rw [indented_lineStart, hchain, source, Nat.succ_mul, Nat.add_comm w]

/-- Only the default value can break a declaration, since it is raw. -/
theorem WellFormed.unbroken {d : ColumnDefinition} (h : d.WellFormed)
    (hdefault : ∀ args, d.modifier? .defaultValue = some args → ∀ l ∈ args, OneLine l.source) :
    d.Unbroken where
  method := oneLine_word h.method
  args := fun l hl => (h.args l hl).oneLine
  modifiers := by
    intro m hm l hl
    have hargs : d.modifier? m.1 = some m.2 := mem_modifiers.mp hm
    by_cases hk : m.1 = .defaultValue
    · rw [hk] at hargs
      exact hdefault m.2 hargs l hl
    · exact (h.modifiers m.1 m.2 hk hargs l hl).oneLine

end ColumnDefinition

/-- The statement of an index is indented by one level. -/
theorem IndexDefinition.source_succ {d : IndexDefinition} (h : isWord d.method = true)
    (depth w : Nat) : d.source (depth + 1) w = indented w (d.source depth w) := by
  have hcall : d.asCall.Unbroken := by
    refine ⟨oneLine_word h, fun l hl => ((readable_asCall h).args l hl).oneLine, ?_⟩
    rw [modifiers_asCall]
    simp
  rw [← source_asCall]
  exact hcall.source_succ depth w

namespace Table

/-- The declaration of a column is unbroken if its default value is. -/
theorem unbroken_columnDefinition {t : Table} {c : Column} {d : ColumnDefinition}
    (h : t.columnDefinition c = .ok d) (hdefault : ∀ e, c.defaultText? = some e → OneLine e) :
    d.Unbroken := by
  apply (wellFormed_columnDefinition h).unbroken
  rw [modifier?_columnDefinition_default h]
  intro args hargs l hl
  obtain ⟨e, he, rfl⟩ := Option.map_eq_some_iff.mp hargs
  rw [List.mem_singleton.mp hl]
  exact hdefault e he

/-- The changes that write the statements of a table one by one: a column after the other, and then
an index after the other. -/
def pieces (t : Table) : List Change :=
  t.columns.map (.addColumn t) ++ t.tableIndices.map (.addIndex t)

/-- The texts of these changes are the statements of the table in order, and what stops the first of
them that fails stops the table. -/
theorem mapM_source_pieces (t : Table) (w : Nat) :
    t.pieces.mapM (Change.source w) =
      t.definitions.map fun (columns, indices) =>
        columns.map (·.source 0 w) ++ indices.map (·.source 0 w) := by
  have hcolumn : Change.source w ∘ Change.addColumn t =
      fun c => (t.columnDefinition c).map (·.source 0 w) := by
    ext1 c
    rw [Function.comp_apply, Change.source]
    cases t.columnDefinition c <;> rfl
  have hindex : Change.source w ∘ Change.addIndex t =
      fun i => (t.indexDefinition i).map (·.source 0 w) := by
    ext1 i
    rw [Function.comp_apply, Change.source]
    cases t.indexDefinition i <;> rfl
  rw [pieces, List.mapM_append, List.mapM_map, List.mapM_map, hcolumn, hindex,
    mapM_map_result, mapM_map_result, definitions]
  cases t.columns.mapM t.columnDefinition with
  | error e => rfl
  | ok columns =>
    cases t.tableIndices.mapM t.indexDefinition with
    | error e => rfl
    | ok indices => rfl

end Table

namespace Migration

def applyAll : List Change → Migration → Except LoweringError Migration
  | [], m => .ok m
  | change :: changes, m =>
    match m.apply change with
    | (.ok (), m) => applyAll changes m
    | (.error e, _) => .error e

/-- At the outermost level changes write their texts one after the other, or fail with the error of
the first of them that does. -/
theorem applyAll_eq (changes : List Change) (m : Migration) (hdepth : m.depth = 0) :
    applyAll changes m =
      (changes.mapM (Change.source m.indentWidth)).map fun texts =>
        (⟨m.toScript.write (String.join texts)⟩ : Migration) := by
  induction changes generalizing m with
  | nil =>
    have hsame : m.toScript.write (String.join []) = m.toScript := by simp [Script.write]
    rw [applyAll, List.mapM_nil]
    change _ = Except.ok (⟨m.toScript.write (String.join [])⟩ : Migration)
    rw [hsame]
  | cons change changes ih =>
    rw [applyAll, List.mapM_cons]
    obtain ⟨text, hsource, happly⟩ | ⟨e, hsource, _, happly⟩ := apply_eq m hdepth change
    · -- What follows is written at the outermost level too, and with the same width.
      have hrest := ih ⟨m.toScript.write text⟩ hdepth
      rw [happly, hsource]
      change applyAll changes ⟨m.toScript.write text⟩ = _
      rw [hrest]
      change (changes.mapM (Change.source m.indentWidth)).map _ = _
      cases changes.mapM (Change.source m.indentWidth) with
      | error e => rfl
      | ok texts =>
        have htext (texts : List String) :
            (m.toScript.write text).write (String.join texts) =
              m.toScript.write (String.join (text :: texts)) := by
          simp only [Script.write, String.join_cons, String.append_assoc]
        change Except.ok (⟨(m.toScript.write text).write (String.join texts)⟩ : Migration) = _
        rw [htext]
        rfl
    · rw [happly, hsource]
      rfl

end Migration

namespace Table

/-- The statement that creates a table encloses the statements of its pieces, one level deeper. -/
theorem createSource_eq {t : Table} {columns : List ColumnDefinition}
    {indices : List IndexDefinition} (h : t.definitions = .ok (columns, indices))
    (hdefaults : ∀ c ∈ t.columns, ∀ e, c.defaultText? = some e → OneLine e) (w : Nat) :
    createSource t.name columns indices 0 w =
      "Schema::create(" ++ singleQuoted t.name ++ ", function (Blueprint $table) \x7b" ++
        indented w (String.join
          (columns.map (·.source 0 w) ++ indices.map (·.source 0 w))) ++
        "\n" ++ "\x7d);" := by
  obtain ⟨hcs, his⟩ := definitions_eq_ok_iff.mp h
  have hunbroken : ∀ d ∈ columns, d.Unbroken :=
    forall_mem_of_mapM_eq_ok hcs fun c hc _ hd => unbroken_columnDefinition hd (hdefaults c hc)
  have hword : ∀ d ∈ indices, isWord d.method = true :=
    forall_mem_of_mapM_eq_ok his fun _ _ _ hd => isWord_indexDefinition hd
  have hcolumns : columns.map (·.source (0 + 1) w) =
      columns.map fun d => indented w (d.source 0 w) := by
    apply List.map_congr_left
    intro d hd
    exact (hunbroken d hd).source_succ 0 w
  have hindices : indices.map (·.source (0 + 1) w) =
      indices.map fun d => indented w (d.source 0 w) := by
    apply List.map_congr_left
    intro d hd
    exact IndexDefinition.source_succ (hword d hd) 0 w
  unfold createSource
  rw [hcolumns, hindices, Nat.zero_mul, Script.lineStart_zero, String.join_append, indented_append,
    indented_join, indented_join]

/-- A table that is created as a whole has the text of its columns and indices added one by one,
further in by the blanks of a level, and it fails if one of them does, with the error of the first
one. -/
theorem createTable_eq_pieces (t : Table) (w : Nat)
    (hdefaults : ∀ c ∈ t.columns, ∀ e, c.defaultText? = some e → '\n' ∉ e.toList) :
    ({ indentWidth := w } : Migration).apply (.createTable t) =
      match Migration.applyAll t.pieces { indentWidth := w } with
      | .ok m =>
        (.ok (),
          { text := "\n" ++ ("Schema::create(" ++ singleQuoted t.name ++
              ", function (Blueprint $table) \x7b" ++ indented w m.text ++ "\n" ++ "\x7d);")
            indentWidth := w })
      | .error e => (.error e, { indentWidth := w }) := by
  rw [Migration.applyAll_eq t.pieces { indentWidth := w } rfl, mapM_source_pieces,
    Migration.apply_createTable]
  cases h : t.definitions with
  | error e => rfl
  | ok definitions =>
    obtain ⟨columns, indices⟩ := definitions
    simp only [createSource_eq h hdefaults w, Script.write, Except.map, Nat.zero_mul,
      Script.lineStart_zero, String.empty_append]

def ledger : Table where
  name := "ledger"
  columns :=
    [{ id := "1", name := "state", simpleType := "int", isNotNull := true, defaultValue := "0" },
      { id := "2", name := "note", simpleType := "text", comment := "two\nlines" }]
  indices :=
    [{ name := "sn", indexType := "INDEX"
       columns := [{ referencedColumn := "1" }, { referencedColumn := "2" }] }]

/-- The line feed of the comment is escaped, so it breaks no line. -/
theorem createTable_ledger :
    (∀ c ∈ ledger.columns, ∀ e, c.defaultText? = some e → '\n' ∉ e.toList) ∧
      ({ indentWidth := 2 } : Migration).apply (.createTable ledger) =
        (.ok (),
          { text := "\n" ++ ("Schema::create(" ++ singleQuoted "ledger" ++
              ", function (Blueprint $table) \x7b" ++
              indented 2
                ("\n$table->integer(\"state\")\n  ->default(0);" ++
                  "\n$table->text(\"note\")\n  ->nullable()\n  ->comment(\"two\\nlines\");" ++
                  "\n$table->index([\"state\", \"note\"]);") ++
              "\n" ++ "\x7d);")
            indentWidth := 2 }) := by
  have hdefaults : ∀ c ∈ ledger.columns, ∀ e, c.defaultText? = some e → '\n' ∉ e.toList := by
    decide
  have hpieces : Migration.applyAll ledger.pieces { indentWidth := 2 } =
      .ok
        { text := "\n$table->integer(\"state\")\n  ->default(0);" ++
            "\n$table->text(\"note\")\n  ->nullable()\n  ->comment(\"two\\nlines\");" ++
            "\n$table->index([\"state\", \"note\"]);"
          indentWidth := 2 } := by
    decide +kernel
  have hwhole := createTable_eq_pieces ledger 2 hdefaults
  rw [hpieces] at hwhole
  exact ⟨hdefaults, hwhole⟩

end Table

end SchemaMigration
