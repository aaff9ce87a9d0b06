import SchemaMigration.Proofs.MigrationRun

namespace SchemaMigration

namespace ColumnDefinition

/-- The statement of a column without its semicolon. -/
def openSource (d : ColumnDefinition) (depth w : Nat) : String :=
  Script.lineStart (depth * w) ++ callSource d.method d.args ++
    String.join (d.modifiers.map (modifierSource (depth + 1) w))

theorem source_eq_openSource (d : ColumnDefinition) (depth w : Nat) :
    d.source depth w = d.openSource depth w ++ ";" := rfl

/-- No call is chained behind the mark, so it comes last if it was not there. -/
theorem modifiers_set_change {d : ColumnDefinition} (h : d.modifier? .change = none)
    (args : List Literal) :
    (d.set .change args).modifiers = d.modifiers ++ [(.change, args)] := by
  have hall : Modifier.all = Modifier.all.dropLast ++ [.change] := rfl
  have hbefore : ∀ k ∈ Modifier.all.dropLast, k ≠ .change := by decide
  have hkept : ∀ k ∈ Modifier.all.dropLast,
      ((d.set .change args).modifier? k).map (k, ·) = (d.modifier? k).map (k, ·) := by
    intro k hk
    rw [modifier?_set, if_neg (hbefore k hk)]
  rw [modifiers, modifiers, hall, List.filterMap_append, List.filterMap_append,
    List.filterMap_congr hkept]
  simp [h]

/-- The mark of a change is chained last, so it adds one line at the end. -/
theorem openSource_set_change {d : ColumnDefinition} (h : d.modifier? .change = none)
    (depth w : Nat) :
    (d.set .change []).openSource depth w =
      d.openSource depth w ++ (Script.lineStart ((depth + 1) * w) ++ "->change()") := by
  have hmark : modifierSource (depth + 1) w (.change, []) =
      Script.lineStart ((depth + 1) * w) ++ "->change()" := by
    have hcall : Script.callText "change" [] = "->change()" := by decide
    rw [modifierSource, List.map_nil, Modifier.method, hcall]
  rw [openSource, openSource, modifiers_set_change h, List.map_append, String.join_append,
    List.map_singleton, String.join_cons, String.join_nil, String.append_empty, hmark,
    ← String.append_assoc]
  rfl

end ColumnDefinition

/-- A column that is lowered has no mark of a change. -/
theorem Table.modifier?_columnDefinition_change {t : Table} {c : Column} {d : ColumnDefinition}
    (h : t.columnDefinition c = .ok d) : d.modifier? .change = none := by
  obtain ⟨type, _, _, _, hmodifier⟩ := columnDefinition_eq_ok_but_indices h
  have hindex : ∀ category, Modifier.change ≠ .ofIndex category := by
    rintro (_ | _ | _ | _ | _) <;> decide
  rw [hmodifier .change hindex]
  simp [completeDefinition, plainDefinition, modifier?_definition]

namespace Migration

/-- At the outermost level, a change that has a text appends it. -/
theorem apply_eq_of_source {m : Migration} (hdepth : m.depth = 0) {change : Change}
    {text : String} (h : change.source m.indentWidth = .ok text) :
    m.apply change = (.ok (), ⟨m.toScript.write text⟩) := by
  obtain ⟨text', hsource, happly⟩ | ⟨e, hsource, _, _⟩ := apply_eq m hdepth change
  · rw [happly, Except.ok.inj (hsource.symm.trans h)]
  · cases hsource.symm.trans h

/-- A change without a text leaves the migration as it was, with the same error. -/
theorem apply_eq_of_source_error {m : Migration} (hdepth : m.depth = 0) {change : Change}
    {e : LoweringError} (h : change.source m.indentWidth = .error e) :
    m.apply change = (.error e, m) := by
  obtain ⟨text, hsource, _⟩ | ⟨e', hsource, _, happly⟩ := apply_eq m hdepth change
  · cases hsource.symm.trans h
  · rw [happly, Except.error.inj (hsource.symm.trans h)]

/-- After any changes, to change a column and to add it fail with one error, and then leave the
migration as it was, or both succeed. Then the mark is the last call that is chained to the changed
column, on a line of its own one level deep, and the statements do not differ in anything else. -/
theorem changeColumn_marks_addColumn (w : Nat) (changes : List Change) (t : Table) (c : Column) :
    let m := run w changes
    (∃ e, t.columnDefinition c = .error e ∧ m.apply (.addColumn t c) = (.error e, m) ∧
        m.apply (.changeColumn t c) = (.error e, m)) ∨
      ∃ d s, t.columnDefinition c = .ok d ∧
        (d.set .change []).modifiers = d.modifiers ++ [(.change, [])] ∧
        m.apply (.addColumn t c) = (.ok (), ⟨m.toScript.write (s ++ ";")⟩) ∧
        m.apply (.changeColumn t c) =
          (.ok (), ⟨m.toScript.write
            (s ++ "\n" ++ String.ofList (List.replicate w ' ') ++ "->change();")⟩) := by
  have hdepth : (run w changes).depth = 0 := by rw [run_eq]
  have hwidth : (run w changes).indentWidth = w := by rw [run_eq]
  cases hd : t.columnDefinition c with
  | error e =>
    refine Or.inl ⟨e, rfl, apply_eq_of_source_error hdepth ?_, apply_eq_of_source_error hdepth ?_⟩
    · rw [Change.source, hd]
      rfl
    · rw [Change.source, hd]
      rfl
  | ok d =>
    have hmark := Table.modifier?_columnDefinition_change hd
    refine Or.inr ⟨d, d.openSource 0 w, rfl, ColumnDefinition.modifiers_set_change hmark [],
      apply_eq_of_source hdepth ?_, apply_eq_of_source hdepth ?_⟩
    · rw [hwidth, Change.source, hd]
      rfl
    · -- The mark stands behind all other calls of the chain, in front of the semicolon.
      have hsource : (d.set .change []).source 0 w =
          d.openSource 0 w ++ "\n" ++ String.ofList (List.replicate w ' ') ++ "->change();" := by
        have hend : "->change();" = "->change()" ++ ";" := by decide
        rw [ColumnDefinition.source_eq_openSource, ColumnDefinition.openSource_set_change hmark,
          Script.lineStart_eq, Nat.zero_add, Nat.one_mul, hend]
        simp only [String.append_assoc]
      rw [hwidth, Change.source, hd, ← hsource]
      rfl

end Migration

end SchemaMigration
