namespace SchemaMigration

inductive IndexCategory where
  | primary
  | index
  | unique
  | spatial
  | fulltext
  deriving DecidableEq, Repr, Inhabited

namespace IndexCategory

def all : List IndexCategory :=
  [primary, index, unique, spatial, fulltext]

def token : IndexCategory → String
  | primary => "PRIMARY"
  | index => "INDEX"
  | unique => "UNIQUE"
  | spatial => "SPATIAL"
  | fulltext => "FULLTEXT"

def ofToken? (token : String) : Option IndexCategory :=
  all.find? (·.token == token)

theorem ofToken?_token (k : IndexCategory) : ofToken? k.token = some k := by
  cases k <;> decide

theorem ofToken?_eq_some_iff {s : String} {k : IndexCategory} :
    ofToken? s = some k ↔ s = k.token := by
  constructor
  · intro h
    unfold ofToken? at h
    have hk := List.find?_some h
    simpa using (beq_iff_eq.mp hk).symm
  · rintro rfl
    exact ofToken?_token k

end IndexCategory

structure IndexColumn where
  id : String := ""
  referencedColumn : String := ""
  descend : Bool := false
  deriving DecidableEq, Repr, Inhabited

/-- An index. `indexType` is the word for its category as the document has it. -/
structure Index where
  id : String := ""
  name : String := ""
  comment : String := ""
  columns : List IndexColumn := []
  indexType : String := ""
  isPrimary : Bool := false
  unique : Bool := false
  deriving DecidableEq, Repr, Inhabited

namespace Index

def spansOneColumn (i : Index) : Bool :=
  i.columns.length == 1

def category? (i : Index) : Option IndexCategory :=
  IndexCategory.ofToken? i.indexType

def onlyColumn? (i : Index) : Option String :=
  match i.columns with
  | [c] => some c.referencedColumn
  | _ => none

end Index

structure ForeignKey where
  id : String := ""
  name : String := ""
  comment : String := ""
  referencedTable : String := ""
  columns : List String := []
  referencedColumns : List String := []
  index : Option String := none
  updateRule : String := ""
  deleteRule : String := ""
  deriving DecidableEq, Repr, Inhabited

def ForeignKey.tiesOneColumn (f : ForeignKey) : Bool :=
  f.columns.length == 1 && f.referencedColumns.length == 1

end SchemaMigration
