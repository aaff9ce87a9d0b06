import SchemaMigration.Document.Reading
import SchemaMigration.Failure
import SchemaMigration.Migration
import SchemaMigration.Settings.Reader

namespace SchemaMigration

/-- The statement that creates a table, and once more each of the index statements in it. -/
structure TableCode where
  name : String
  code : String
  indices : List String
  deriving DecidableEq, Repr, Inhabited

def Table.generate (t : Table) (indentWidth : Nat) : Except LoweringError TableCode := do
  let code ← t.render indentWidth
  let indices ← t.tableIndices.mapM t.renderIndex
  return { name := t.name, code, indices }

def Settings.generate (s : Settings) (tables : List Table) :
    Except LoweringError (List TableCode) :=
  (tables.filter fun t => s.includes t.name).mapM (·.generate s.indentWidth)

def generateTree (s : Settings) (root : Element) : Except Failure (List TableCode) := do
  let d ← (Document.readSingle root).mapError .document
  (s.generate d.tables).mapError .lowering

def generateTreeWith (settings : String) (root : Element) :
    Except Failure (List TableCode) := do
  -- The settings are read before the tree.
  let s ← (Settings.read settings).mapError .settings
  generateTree s root

end SchemaMigration
