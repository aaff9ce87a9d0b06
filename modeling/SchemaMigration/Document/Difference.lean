import SchemaMigration.Document.Basic

namespace SchemaMigration

/-- The tables by which a document differs from an earlier one: those that are new, those of the
earlier document that are gone, and those that have another name. -/
structure TableDifference where
  created : List Table := []
  dropped : List Table := []
  renamed : List Table := []
  deriving DecidableEq, Repr, Inhabited

namespace Document

def knows (d : Document) (id : String) : Bool :=
  d.ids.contains id || (d.tableById? id).isSome

def tablesUnknownTo (d other : Document) : List Table :=
  d.tables.filter fun t => !other.knows t.id

def tablesRenamedFrom (d old : Document) : List Table :=
  d.tables.filter fun t => (old.tableById? t.id).any fun before => before.name != t.name

def difference (new : Document) : Option Document → TableDifference
  -- Without an earlier document, every table is new.
  | none => { created := new.tables }
  | some old => {
      created := new.tablesUnknownTo old
      dropped := old.tablesUnknownTo new
      renamed := new.tablesRenamedFrom old }

end Document

end SchemaMigration
