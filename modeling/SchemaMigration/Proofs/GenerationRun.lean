import SchemaMigration.Generation
import SchemaMigration.Proofs.Outcome

namespace SchemaMigration
namespace Settings

theorem generate_singleton (s : Settings) (t : Table) :
    s.generate [t] =
      if s.includes t.name then (t.generate s.indentWidth).map ([·]) else .ok [] := by
  unfold generate
  rw [List.filter_singleton]
  cases s.includes t.name with
  | false => rfl
  | true =>
    rw [cond_true, List.mapM_cons]
    cases t.generate s.indentWidth <;> rfl

/-- The tables of two lists are generated one list after the other, up to the first error. -/
theorem generate_append (s : Settings) (a b : List Table) :
    s.generate (a ++ b) = (do
      let codes ← s.generate a
      let codes' ← s.generate b
      return codes ++ codes') := by
  unfold generate
  rw [List.filter_append, List.mapM_append]

/-- The error is that of the first table that is included and fails. -/
theorem generate_eq_error_iff {s : Settings} {tables : List Table} {e : LoweringError} :
    s.generate tables = .error e ↔
      ∃ before t after, tables = before ++ t :: after ∧
        (∃ codes, s.generate before = .ok codes) ∧ s.includes t.name = true ∧
          t.generate s.indentWidth = .error e := by
  unfold generate
  exact mapM_filter_eq_error_iff

/-- A table that is excluded has no part in what is generated. -/
theorem generate_excluded (s : Settings) (a b : List Table) {t : Table}
    (h : s.includes t.name = false) : s.generate (a ++ t :: b) = s.generate (a ++ b) := by
  have ht : ¬s.includes t.name = true := by
    rw [h]
    decide
  unfold generate
  rw [List.filter_append, List.filter_cons, if_neg ht, List.filter_append]

end Settings
end SchemaMigration
