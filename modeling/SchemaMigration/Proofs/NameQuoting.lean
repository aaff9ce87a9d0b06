import SchemaMigration.Proofs.LiteralReading
import SchemaMigration.Proofs.MigrationRun

namespace SchemaMigration

/-- The value of a literal from behind its opening quote, and what follows its closing quote. A
backslash in front of a quote or of another backslash takes that character into the value, and any
other backslash stands for itself. -/
def evaluateSingle : List Char → Option (List Char × List Char)
  | [] => none
  | '\'' :: cs => some ([], cs)
  | '\\' :: '\'' :: cs => (evaluateSingle cs).map fun (value, rest) => ('\'' :: value, rest)
  | '\\' :: '\\' :: cs => (evaluateSingle cs).map fun (value, rest) => ('\\' :: value, rest)
  | c :: cs => (evaluateSingle cs).map fun (value, rest) => (c :: value, rest)

def evaluateSingleQuoted (source : String) : Option (String × String) :=
  match source.toList with
  | '\'' :: cs =>
    (evaluateSingle cs).map fun (value, rest) => (String.ofList value, String.ofList rest)
  | _ => none

/-- An escaped character evaluates to itself. -/
theorem evaluateSingle_escapeSingle (c : Char) (cs : List Char) :
    evaluateSingle (escapeSingle c ++ cs) =
      (evaluateSingle cs).map fun (value, rest) => (c :: value, rest) := by
  unfold escapeSingle
  split
  case isTrue h => rcases h with rfl | rfl <;> rfl
  case isFalse h =>
    -- No other rule of the evaluation is for such a character.
    obtain ⟨hquote, hslash⟩ := not_or.mp h
    rw [List.singleton_append, evaluateSingle]
    · exact hquote
    · exact fun _ hc => absurd hc hslash
    · exact fun _ hc => absurd hc hslash

/-- Each character is taken from its escape, and the first quote that is left ends the literal. -/
theorem evaluateSingle_flatMap (value rest : List Char) :
    evaluateSingle (value.flatMap escapeSingle ++ '\'' :: rest) = some (value, rest) := by
  induction value with
  | nil => rfl
  | cons c cs ih =>
    rw [List.flatMap_cons, List.append_assoc, evaluateSingle_escapeSingle, ih, Option.map_some]

/-- A text in single quotes evaluates to itself, and the literal ends where the text does. -/
theorem evaluateSingleQuoted_eq (s rest : String) :
    evaluateSingleQuoted (singleQuoted s ++ rest) = some (s, rest) := by
  rw [evaluateSingleQuoted, String.toList_append, toList_singleQuoted]
  simp only [List.cons_append, List.append_assoc, List.nil_append, evaluateSingle_flatMap,
    Option.map_some, String.ofList_toList]

/-- What is written for a name is cut off in one way only. -/
theorem singleQuoted_cut {s t u v : String} (h : singleQuoted s ++ u = singleQuoted t ++ v) :
    s = t ∧ u = v := by
  have hchars := congrArg String.toList h
  rw [String.toList_append, String.toList_append] at hchars
  obtain ⟨hst, huv⟩ := singleQuoted_append_inj hchars
  exact ⟨hst, String.toList_inj.mp huv⟩

/-- The start of a line is cut off in one way only from texts that go on without a blank. -/
theorem lineStart_append_inj {k k' : Nat} {u v : String} (hu : NotLedBy (· = ' ') u.toList)
    (hv : NotLedBy (· = ' ') v.toList) (h : Script.lineStart k ++ u = Script.lineStart k' ++ v) :
    u = v := by
  have hchars := congrArg String.toList h
  simp only [Script.lineStart, String.toList_append, String.toList_ofList, List.cons_append]
    at hchars
  have hblanks (n : Nat) : ∀ c ∈ List.replicate n ' ', c = ' ' :=
    fun c hc => List.eq_of_mem_replicate hc
  have hrest := (append_inj_of_run (hblanks k) (hblanks k') hu hv (List.cons.inj hchars).2).2
  exact String.toList_inj.mp hrest

namespace Migration

/-- A migration goes on with a statement, at the depth where it stands, that begins with a text and
then the name of a table. -/
def StatesName (m m' : Migration) (front : String) (name : String) : Prop :=
  ∃ back, m'.text = m.text ++
    (Script.lineStart (m.depth * m.indentWidth) ++ (front ++ (singleQuoted name ++ back)))

/-- The statement that creates a table names it in single quotes. -/
theorem statesName_createTable {m m' : Migration} {t : Table}
    (h : m.apply (.createTable t) = (.ok (), m')) : StatesName m m' "Schema::create(" t.name := by
  obtain ⟨columns, indices, _, htext⟩ := createTable_eq_ok h
  have hsource : ∃ back, createSource t.name columns indices m.depth m.indentWidth =
      "Schema::create(" ++ (singleQuoted t.name ++ back) := by
    unfold createSource
    simp only [String.append_assoc]
    exact ⟨_, rfl⟩
  obtain ⟨back, hback⟩ := hsource
  exact ⟨back, by rw [htext, hback]⟩

theorem statesName_dropTable {m m' : Migration} {t : Table}
    (h : m.apply (.dropTable t) = (.ok (), m')) : StatesName m m' "Schema::drop(" t.name := by
  rw [apply_dropTable] at h
  cases h
  exact ⟨");", by simp only [Script.write, dropSource, String.append_assoc]⟩

/-- Statements with one beginning and one text have one name in them, wherever they stand. -/
theorem StatesName.name_eq {m m' n n' : Migration} {front name name' text : String}
    (hm : StatesName m m' front name) (hn : StatesName n n' front name')
    (hfront : ∀ u : String, NotLedBy (· = ' ') (front ++ u).toList)
    (htext : m'.text = m.text ++ text) (htext' : n'.text = n.text ++ text) : name = name' := by
  obtain ⟨back, hback⟩ := hm
  obtain ⟨back', hback'⟩ := hn
  have hsource := (String.append_right_inj m.text).mp (htext.symm.trans hback)
  have hsource' := (String.append_right_inj n.text).mp (htext'.symm.trans hback')
  have hstatement := lineStart_append_inj (hfront _) (hfront _) (hsource.symm.trans hsource')
  exact (singleQuoted_cut ((String.append_right_inj front).mp hstatement)).1

end Migration

/-- What is written for a name is evaluated to the name and ends where it was written, whatever
follows it. So it is cut off in one way only, and no statement that creates a table creates one of
another name, nor does one that drops a table drop one of another name. -/
theorem evaluate_singleQuoted :
    (∀ s rest : String, evaluateSingleQuoted (singleQuoted s ++ rest) = some (s, rest)) ∧
      (∀ s t u v : String, singleQuoted s ++ u = singleQuoted t ++ v → s = t ∧ u = v) ∧
      ∀ change : Table → Change, change = .createTable ∨ change = .dropTable →
        ∀ (t t' : Table) (m m₁ n n₁ : Migration) (text : String),
          m.apply (change t) = (.ok (), m₁) → n.apply (change t') = (.ok (), n₁) →
            m₁.text = m.text ++ text → n₁.text = n.text ++ text → t.name = t'.name := by
  refine ⟨evaluateSingleQuoted_eq, fun _ _ _ _ => singleQuoted_cut, ?_⟩
  rintro change (rfl | rfl) t t' m m₁ n n₁ text hm hn htext htext'
  · have hfront (u : String) : NotLedBy (· = ' ') ("Schema::create(" ++ u).toList := by
      rw [String.toList_append]
      exact notLedBy_cons (by decide)
    exact (Migration.statesName_createTable hm).name_eq (Migration.statesName_createTable hn)
      hfront htext htext'
  · have hfront (u : String) : NotLedBy (· = ' ') ("Schema::drop(" ++ u).toList := by
      rw [String.toList_append]
      exact notLedBy_cons (by decide)
    exact (Migration.statesName_dropTable hm).name_eq (Migration.statesName_dropTable hn)
      hfront htext htext'

example : evaluateSingleQuoted "'a\\\\\\'\\n', 'b'" = some ("a\\'\\n", ", 'b'") := by
  decide

example : evaluateSingleQuoted "'a\\'" = none := by
  decide

end SchemaMigration
