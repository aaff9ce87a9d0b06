import Mathlib.Data.List.Nodup
import SchemaMigration.Proofs.LiteralReading
import SchemaMigration.Proofs.MigrationRun

namespace SchemaMigration

def IsLetter (c : Char) : Prop :=
  c.isAlpha = true

instance : DecidablePred IsLetter :=
  fun c => inferInstanceAs (Decidable (c.isAlpha = true))

theorem isLetter_of_isWord {s : String} (h : isWord s = true) : ∀ c ∈ s.toList, IsLetter c :=
  List.all_eq_true.mp h

theorem toList_callText (method : String) (args : List Literal) :
    (Script.callText method (args.map Literal.source)).toList =
      '-' :: '>' :: (method.toList ++ '(' :: ((Literal.itemsSource args).toList ++ [')'])) := by
  rw [Script.callText, ← Literal.itemsSource_eq_intercalate]
  simp

/-- The text of a call tells its method and its arguments, and what follows it. -/
theorem callText_append_inj {m m' : String} {args args' : List Literal} (hm : isWord m = true)
    (hm' : isWord m' = true) (hargs : ∀ l ∈ args, l.Plain) (hargs' : ∀ l ∈ args', l.Plain)
    {u v : List Char}
    (h : (Script.callText m (args.map Literal.source)).toList ++ u =
      (Script.callText m' (args'.map Literal.source)).toList ++ v) :
    m = m' ∧ args = args' ∧ u = v := by
  simp only [toList_callText, List.cons_append, List.append_assoc, List.nil_append] at h
  -- The method is a run of letters, and a bracket is no letter.
  obtain ⟨hmethod, hrest⟩ := append_inj_of_run (isLetter_of_isWord hm) (isLetter_of_isWord hm')
    (notLedBy_cons (by decide)) (notLedBy_cons (by decide)) (List.cons.inj (List.cons.inj h).2).2
  obtain ⟨rfl, huv⟩ := Literal.itemsSource_append_inj (Or.inr rfl)
    (fun l hl => ⟨hargs l hl, (hargs l hl).readable⟩) hargs' (List.cons.inj hrest).2
  exact ⟨String.toList_inj.mp hmethod, rfl, huv⟩

namespace ColumnDefinition

structure Readable (d : ColumnDefinition) : Prop where
  method : isWord d.method = true
  args : ∀ l ∈ d.args, l.Plain
  modifiers : ∀ m ∈ d.modifiers, ∀ l ∈ m.2, l.Plain

/-- A declaration without a default value, which is raw, can be told. -/
theorem WellFormed.readable {d : ColumnDefinition} (h : d.WellFormed)
    (hdefault : d.modifier? .defaultValue = none) : d.Readable where
  method := h.method
  args := h.args
  modifiers := by
    intro m hm
    have hargs : d.modifier? m.1 = some m.2 := mem_modifiers.mp hm
    apply h.modifiers m.1 m.2 _ hargs
    intro hk
    rw [hk, hdefault] at hargs
    cases hargs

theorem ext_modifiers {d d' : ColumnDefinition} (hmethod : d.method = d'.method)
    (hargs : d.args = d'.args) (hmodifiers : d.modifiers = d'.modifiers) : d = d' := by
  have hfun : d.modifier? = d'.modifier? := by
    funext k
    apply Option.ext
    intro args
    rw [← mem_modifiers, ← mem_modifiers, hmodifiers]
  cases d
  cases d'
  congr

theorem method_injective : Function.Injective Modifier.method := by
  intro k k' h
  have hnodup : (Modifier.all.map Modifier.method).Nodup := by decide
  exact List.inj_on_of_nodup_map hnodup (Modifier.mem_all k) (Modifier.mem_all k') h

/-- The chained calls are told one by one, up to the semicolon. -/
theorem modifiers_append_inj {ms ms' : List (Modifier × List Literal)}
    (hms : ∀ m ∈ ms, ∀ l ∈ m.2, l.Plain) (hms' : ∀ m ∈ ms', ∀ l ∈ m.2, l.Plain) (depth w : Nat)
    {u v : List Char}
    (h : ms.flatMap (fun m => (modifierSource depth w m).toList) ++ ([';'] ++ u) =
      ms'.flatMap (fun m => (modifierSource depth w m).toList) ++ ([';'] ++ v)) :
    ms = ms' ∧ u = v := by
  apply flatMap_append_inj (fun m => ∀ l ∈ m.2, l.Plain) (fun m => ∀ l ∈ m.2, l.Plain)
    (fun _ => True) _ _ (by simp) (by simp) hms hms' h
  · intro m m' u v hm hm' _ _ heq
    simp only [modifierSource, String.toList_append, List.append_assoc] at heq
    obtain ⟨hmethod, hargs, huv⟩ := callText_append_inj (isWord_modifier m.1) (isWord_modifier m'.1)
      hm hm' (List.append_cancel_left heq)
    exact ⟨Prod.ext (method_injective hmethod) hargs, huv⟩
  · intro m u v _ heq
    simp [modifierSource, Script.lineStart] at heq

theorem toList_source (d : ColumnDefinition) (depth w : Nat) :
    (d.source depth w).toList =
      (Script.lineStart (depth * w)).toList ++ ("$table".toList ++
        ((Script.callText d.method (d.args.map Literal.source)).toList ++
          (d.modifiers.flatMap (fun m => (modifierSource (depth + 1) w m).toList) ++ [';']))) := by
  simp [source, callSource, List.flatMap_map]

/-- So the text of a declaration tells the declaration, and what follows it. -/
theorem source_append_inj {d d' : ColumnDefinition} (hd : d.Readable) (hd' : d'.Readable)
    (depth w : Nat) {u v : List Char}
    (h : (d.source depth w).toList ++ u = (d'.source depth w).toList ++ v) : d = d' ∧ u = v := by
  simp only [toList_source, List.append_assoc] at h
  obtain ⟨hmethod, hargs, hchain⟩ := callText_append_inj hd.method hd'.method hd.args hd'.args
    (List.append_cancel_left (List.append_cancel_left h))
  obtain ⟨hmodifiers, huv⟩ := modifiers_append_inj hd.modifiers hd'.modifiers (depth + 1) w hchain
  exact ⟨ext_modifiers hmethod hargs hmodifiers, huv⟩

/-- A statement on the second level does not start like the end of a table. -/
theorem source_append_ne (d : ColumnDefinition) (w : Nat) (u v : List Char) :
    (d.source 1 w).toList ++ u ≠ ['\n', '}', ')', ';'] ++ v := by
  intro h
  rw [toList_source, Script.lineStart, String.toList_ofList] at h
  -- Behind the line feed stands a blank or, without indentation, the table and not a brace.
  cases hw : 1 * w with
  | zero =>
    rw [hw] at h
    simp at h
  | succ n =>
    rw [hw] at h
    simp [List.replicate_succ] at h

/-- The call names what it declares first, and does not list columns. -/
def Named (d : ColumnDefinition) : Prop :=
  ∀ items, d.args ≠ [.list items]

theorem WellFormed.named {d : ColumnDefinition} (h : d.WellFormed) : d.Named := by
  intro items hargs
  rcases h.head with hnil | ⟨name, rest, hcons⟩
  · rw [hargs] at hnil
    cases hnil
  · rw [hargs] at hcons
    cases hcons

end ColumnDefinition

namespace IndexDefinition

theorem readable_asCall {d : IndexDefinition} (h : isWord d.method = true) :
    d.asCall.Readable where
  method := h
  args := by
    intro l hl
    rw [List.mem_singleton.mp hl]
    exact Literal.plain_names d.columns
  modifiers := by
    intro m hm
    rw [modifiers_asCall] at hm
    cases hm

theorem not_named_asCall (d : IndexDefinition) : ¬d.asCall.Named :=
  fun h => h _ rfl

theorem asCall_injective : Function.Injective asCall := by
  rintro ⟨method, columns⟩ ⟨method', columns'⟩ h
  have hmethod : method = method' := congrArg ColumnDefinition.method h
  have hargs : [Literal.list (columns.map .string)] = [Literal.list (columns'.map .string)] :=
    congrArg ColumnDefinition.args h
  have hnames : columns.map Literal.string = columns'.map Literal.string := by
    injection hargs with hlist
    injection hlist
  rw [hmethod, List.map_injective_iff.mpr (fun s t hst => Literal.string.inj hst) hnames]

end IndexDefinition

def statements (columns : List ColumnDefinition) (indices : List IndexDefinition) :
    List ColumnDefinition :=
  columns ++ indices.map IndexDefinition.asCall

/-- Only the statement of a column has a name for its first argument, so it can be told where the
columns end and the indices begin. -/
theorem statements_inj {columns columns' : List ColumnDefinition}
    {indices indices' : List IndexDefinition} (hcolumns : ∀ d ∈ columns, d.Named)
    (hcolumns' : ∀ d ∈ columns', d.Named)
    (h : statements columns indices = statements columns' indices') :
    columns = columns' ∧ indices = indices' := by
  have hindices (is : List IndexDefinition) :
      NotLedBy ColumnDefinition.Named (is.map IndexDefinition.asCall) := by
    cases is with
    | nil => simp [NotLedBy]
    | cons i is => exact notLedBy_cons i.not_named_asCall
  obtain ⟨hcs, his⟩ := append_inj_of_run hcolumns hcolumns' (hindices _) (hindices _) h
  exact ⟨hcs, List.map_injective_iff.mpr IndexDefinition.asCall_injective his⟩

theorem toList_createSource (name : String) (columns : List ColumnDefinition)
    (indices : List IndexDefinition) (w : Nat) :
    (createSource name columns indices 0 w).toList =
      "Schema::create(".toList ++ ((singleQuoted name).toList ++
        (", function (Blueprint $table) \x7b".toList ++
          ((statements columns indices).flatMap (fun d => (d.source 1 w).toList) ++
            ['\n', '}', ')', ';']))) := by
  have hindices : indices.map (·.source 1 w) =
      (indices.map IndexDefinition.asCall).map (·.source 1 w) := by
    simp [IndexDefinition.source_asCall]
  unfold createSource
  rw [Nat.zero_add, hindices, ← String.join_append, ← List.map_append, Nat.zero_mul]
  simp [statements, Script.lineStart, List.flatMap_map]

/-- The statement that creates a table is read in one way only. -/
theorem createSource_inj {name name' : String} {columns columns' : List ColumnDefinition}
    {indices indices' : List IndexDefinition} {w : Nat}
    (hcolumns : ∀ d ∈ columns, d.Readable ∧ d.Named)
    (hcolumns' : ∀ d ∈ columns', d.Readable ∧ d.Named)
    (hindices : ∀ d ∈ indices, isWord d.method = true)
    (hindices' : ∀ d ∈ indices', isWord d.method = true)
    (h : createSource name columns indices 0 w = createSource name' columns' indices' 0 w) :
    name = name' ∧ columns = columns' ∧ indices = indices' := by
  have hreadable {cs : List ColumnDefinition} {is : List IndexDefinition}
      (hcs : ∀ d ∈ cs, d.Readable ∧ d.Named) (his : ∀ d ∈ is, isWord d.method = true) :
      ∀ d ∈ statements cs is, d.Readable := by
    intro d hd
    rcases List.mem_append.mp hd with hd | hd
    · exact (hcs d hd).1
    · obtain ⟨i, hi, rfl⟩ := List.mem_map.mp hd
      exact i.readable_asCall (his i hi)
  -- The name ends at its quote, and the statements end at the line of the closing brace.
  have hchars := congrArg String.toList h
  rw [toList_createSource, toList_createSource] at hchars
  obtain ⟨hname, hrest⟩ := singleQuoted_append_inj (List.append_cancel_left hchars)
  have hbody := congrArg (· ++ []) (List.append_cancel_left hrest)
  simp only [List.append_assoc] at hbody
  have hstatements : statements columns indices = statements columns' indices' := by
    refine (flatMap_append_inj ColumnDefinition.Readable ColumnDefinition.Readable
      (fun _ => True) ?_ ?_ (by simp) (by simp) (hreadable hcolumns hindices)
      (hreadable hcolumns' hindices') hbody).1
    · intro d d' u v hd hd' _ _ heq
      exact ColumnDefinition.source_append_inj hd hd' 1 w heq
    · intro d u v _
      exact d.source_append_ne w u v
  exact ⟨hname, statements_inj (fun d hd => (hcolumns d hd).2) (fun d hd => (hcolumns' d hd).2)
    hstatements⟩

namespace Table

theorem isWord_indexDefinition {t : Table} {i : Index} {d : IndexDefinition}
    (h : t.indexDefinition i = .ok d) : isWord d.method = true := by
  obtain ⟨k, _, hmethod, _⟩ := indexDefinition_eq_ok h
  rw [hmethod]
  exact isWord_tableMethod k

/-- A table with code has declarations, which can be read back if no column has a default value. -/
theorem readable_of_render_eq_ok {t : Table} {w : Nat} {code : String}
    (h : t.render w = .ok code) (hdefaults : ∀ c ∈ t.columns, c.defaultText? = none) :
    ∃ columns indices, t.definitions = .ok (columns, indices) ∧
      code = createSource t.name columns indices 0 w ∧
      (∀ d ∈ columns, d.Readable ∧ d.Named) ∧ ∀ d ∈ indices, isWord d.method = true := by
  obtain ⟨columns, indices, hdefinitions, rfl⟩ := render_eq_ok_iff.mp h
  obtain ⟨hcolumns, hindices⟩ := definitions_eq_ok_iff.mp hdefinitions
  refine ⟨columns, indices, hdefinitions, rfl, ?_, ?_⟩
  · refine forall_mem_of_mapM_eq_ok hcolumns ?_
    intro c hc d hd
    have hwell : d.WellFormed := wellFormed_columnDefinition hd
    refine ⟨hwell.readable ?_, hwell.named⟩
    rw [modifier?_columnDefinition_default hd, hdefaults c hc, Option.map_none]
  · exact forall_mem_of_mapM_eq_ok hindices fun _ _ _ hd => isWord_indexDefinition hd

/-- Tables that have the same code, and no default values, have the same name, the same
declarations of columns and the same declarations of indices. -/
theorem declarations_eq_of_render_eq (w : Nat) (t t' : Table) (code : String)
    (h : t.render w = .ok code) (h' : t'.render w = .ok code)
    (hdefaults : ∀ c ∈ t.columns, c.defaultText? = none)
    (hdefaults' : ∀ c ∈ t'.columns, c.defaultText? = none) :
    t.name = t'.name ∧
      ∃ columns indices,
        (t.columns.mapM t.columnDefinition = .ok columns ∧
          t'.columns.mapM t'.columnDefinition = .ok columns) ∧
        t.tableIndices.mapM t.indexDefinition = .ok indices ∧
          t'.tableIndices.mapM t'.indexDefinition = .ok indices := by
  obtain ⟨columns, indices, hdefs, hcode, hcolumns, hindices⟩ :=
    readable_of_render_eq_ok h hdefaults
  obtain ⟨columns', indices', hdefs', hcode', hcolumns', hindices'⟩ :=
    readable_of_render_eq_ok h' hdefaults'
  obtain ⟨hname, rfl, rfl⟩ := createSource_inj hcolumns hcolumns' hindices hindices'
    (hcode.symm.trans hcode')
  obtain ⟨hcs, his⟩ := definitions_eq_ok_iff.mp hdefs
  obtain ⟨hcs', his'⟩ := definitions_eq_ok_iff.mp hdefs'
  exact ⟨hname, columns, indices, ⟨hcs, hcs'⟩, his, his'⟩

def quoting (id : String) : Table where
  id := id
  name := "it's"
  columns := [{ id := id ++ "1", name := "a\"]", simpleType := "int", comment := "\\$\n" }]
  indices := [{
    indexType := "UNIQUE"
    columns := [{ referencedColumn := id ++ "1" }, { referencedColumn := id ++ "1" }] }]

def quotingColumn : ColumnDefinition :=
  let call : ColumnDefinition := { method := "integer", args := [.string "a\"]"] }
  (call.set .nullable []).set .comment [.string "\\$\n"]

def quotingIndex : IndexDefinition :=
  { method := "unique", columns := ["a\"]", "a\"]"] }

def quotingCode : String :=
  createSource "it's" [quotingColumn] [quotingIndex] 0 0

theorem render_quoting {id : String}
    (h : (quoting id).definitions = .ok ([quotingColumn], [quotingIndex])) :
    (quoting id).render 0 = .ok quotingCode := by
  rw [Table.render_eq, h]
  rfl

/-- The two tables differ in their ids, which are not written. -/
theorem declarations_quoting :
    (quoting "s").render 0 = .ok quotingCode ∧ (quoting "t").render 0 = .ok quotingCode ∧
      (quoting "s").name = (quoting "t").name ∧
      ∃ columns indices,
        ((quoting "s").columns.mapM (quoting "s").columnDefinition = .ok columns ∧
          (quoting "t").columns.mapM (quoting "t").columnDefinition = .ok columns) ∧
        (quoting "s").tableIndices.mapM (quoting "s").indexDefinition = .ok indices ∧
          (quoting "t").tableIndices.mapM (quoting "t").indexDefinition = .ok indices := by
  have hs : (quoting "s").render 0 = .ok quotingCode := render_quoting rfl
  have ht : (quoting "t").render 0 = .ok quotingCode := render_quoting rfl
  exact ⟨hs, ht, declarations_eq_of_render_eq 0 (quoting "s") (quoting "t") quotingCode hs ht
    (by decide) (by decide)⟩

end Table

end SchemaMigration
