import SchemaMigration.Blueprint.Lowering

namespace SchemaMigration

inductive Change where
  | createTable (t : Table)
  | dropTable (t : Table)
  | addColumn (t : Table) (c : Column)
  | changeColumn (t : Table) (c : Column)
  | addIndex (t : Table) (i : Index)
  deriving Repr, Inhabited

def Change.commands : Change → Except LoweringError (List Command)
  | createTable t => do
    let (columns, indices) ← t.definitions
    return createCommands t.name columns indices
  | dropTable t => return dropCommands t.name
  | addColumn t c => return (← t.columnDefinition c).commands
  | changeColumn t c => return ((← t.columnDefinition c).set .change []).commands
  | addIndex t i => return (← t.indexDefinition i).commands

structure Migration extends Script
  deriving DecidableEq, Repr, Inhabited

namespace Migration

def apply (m : Migration) (change : Change) : Except LoweringError Unit × Migration :=
  match change.commands with
  | .error e => (.error e, m)
  | .ok commands =>
    let (result, s) := Command.runAll commands m.toScript
    (result.mapError .literal, ⟨s⟩)

/-- The text of a single change, without the line feeds before it. -/
def render (change : Change) (indentWidth : Nat) : Except LoweringError String :=
  let (result, m) := apply { indentWidth } change
  result.map fun _ => String.ofList (m.text.toList.dropWhile (· = '\n'))

end Migration

def Table.render (t : Table) (indentWidth : Nat) : Except LoweringError String :=
  Migration.render (.createTable t) indentWidth

def Table.renderIndex (t : Table) (i : Index) : Except LoweringError String :=
  Migration.render (.addIndex t i) 4

end SchemaMigration
