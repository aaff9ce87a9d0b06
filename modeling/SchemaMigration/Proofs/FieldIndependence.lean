import Mathlib.Data.List.Nodup
import Mathlib.Data.List.Pairwise
import SchemaMigration.Proofs.StructRecord

namespace SchemaMigration

variable {ρ : Type}

namespace Field

def set (f : Field ρ) (x : ρ) (d : Datum) : ρ :=
  (f.assign x d).getD x

def Independent (f g : Field ρ) : Prop :=
  ∀ x d d', g.set (f.set x d) d' = f.set (g.set x d') d

instance : Std.Symm (@Independent ρ) where
  symm _ _ h x d d' := (h x d' d).symm

/-- Two fields are independent if their updates of an entity can trade places. -/
theorem independent_of {α β : Type} {key key' : String} {content : Content α}
    {content' : Content β} {get : ρ → α} {get' : ρ → β} {put : ρ → α → ρ} {put' : ρ → β → ρ}
    (h : ∀ x v w, put' (put x v) w = put (put' x w) v) :
    Independent (.of key content get put) (.of key' content' get' put') := by
  intro x d d'
  simp only [set, of]
  cases content.read d with
  | none => rfl
  | some v =>
    cases content'.read d' with
    | none => rfl
    | some w => exact h x v w

theorem assignTo_eq (fields : List (Field ρ)) (x : ρ) (m : String × Datum) :
    assignTo fields x m =
      match fields.find? (·.key == m.1) with
      | some f => f.set x m.2
      | none => x :=
  rfl

/-- Members with different keys can trade places. -/
theorem assignTo_comm {fields : List (Field ρ)} (hfields : fields.Pairwise Independent) (x : ρ)
    {m m' : String × Datum} (hkeys : m.1 ≠ m'.1) :
    assignTo fields (assignTo fields x m) m' = assignTo fields (assignTo fields x m') m := by
  simp only [assignTo_eq]
  cases hf : fields.find? (·.key == m.1) with
  | none => rfl
  | some f =>
    cases hg : fields.find? (·.key == m'.1) with
    | none => rfl
    | some g =>
      have hkey : f.key = m.1 := by simpa using List.find?_some hf
      have hkey' : g.key = m'.1 := by simpa using List.find?_some hg
      -- Different keys belong to different fields.
      have hne : f ≠ g := by
        rintro rfl
        exact hkeys (hkey.symm.trans hkey')
      have hindependent : Independent f g :=
        hfields.forall (List.mem_of_find?_eq_some hf) (List.mem_of_find?_eq_some hg) hne
      exact hindependent x m.2 m'.2

/-- So the order of members with distinct keys has no part in what they assign. -/
theorem foldl_assignTo_eq_of_perm {fields : List (Field ρ)}
    (hfields : fields.Pairwise Independent) {members members' : List (String × Datum)}
    (hkeys : (members.map Prod.fst).Nodup) (hperm : members.Perm members') (x : ρ) :
    members'.foldl (assignTo fields) x = members.foldl (assignTo fields) x := by
  symm
  apply hperm.foldl_eq'
  intro m hm m' hm' x
  by_cases heq : m = m'
  · rw [heq]
  · have hne : m.1 ≠ m'.1 := fun hkey => heq (List.inj_on_of_nodup_map hkeys hm hm' hkey)
    exact assignTo_comm hfields x hne

end Field

/-- No two fields of a structure write to the same part of its entities. -/
theorem Struct.independent (k : Struct) : k.record.fields.Pairwise Field.Independent := by
  cases k <;>
    simp [record, Model.record, Catalog.record, Schema.record, Table.record, Column.record,
      Index.record, IndexColumn.record, ForeignKey.record, Field.independent_of]

section

variable {members members' : List (String × Datum)} (hkeys : (members.map Prod.fst).Nodup)
  (hperm : members.Perm members')
include hkeys hperm

theorem Record.build_eq_of_perm {r : Record ρ} (hfields : r.fields.Pairwise Field.Independent)
    (id? : Option String) : r.build members' id? = r.build members id? := by
  unfold Record.build
  rw [Field.foldl_assignTo_eq_of_perm hfields hkeys hperm]

/-- Entities of every structure are built from members in any order. -/
theorem Struct.build_eq_of_perm (k : Struct) (id? : Option String) :
    k.build members' id? = k.build members id? := by
  rw [k.build_eq, k.build_eq, Record.build_eq_of_perm hkeys hperm k.independent]

end

end SchemaMigration
