import SchemaMigration.Blueprint.Modifier
import SchemaMigration.Source.Script

namespace SchemaMigration

/-- The declaration of a column: a call, and for each kind of chained call its arguments, if it
is there. -/
structure ColumnDefinition where
  method : String
  args : List Literal
  modifier? : Modifier → Option (List Literal) := fun _ => none

namespace ColumnDefinition

def set (d : ColumnDefinition) (k : Modifier) (args : List Literal) : ColumnDefinition :=
  { d with modifier? := fun k' => if k' = k then some args else d.modifier? k' }

def erase (d : ColumnDefinition) (k : Modifier) : ColumnDefinition :=
  { d with modifier? := fun k' => if k' = k then none else d.modifier? k' }

def has (d : ColumnDefinition) (k : Modifier) : Bool :=
  (d.modifier? k).isSome

def remove (d : ColumnDefinition) (k : Modifier) : Option (List Literal) × ColumnDefinition :=
  (d.modifier? k, d.erase k)

def setSome (d : ColumnDefinition) (k : Modifier) (args : Option (List Literal)) :
    ColumnDefinition :=
  match args with
  | some args => d.set k args
  | none => d

def modifiers (d : ColumnDefinition) : List (Modifier × List Literal) :=
  Modifier.all.filterMap fun k => (d.modifier? k).map (k, ·)

/-- Whether the declared column is a primary key by its method alone. -/
def declaresKey (d : ColumnDefinition) : Bool :=
  d.method = "id" || d.method = "increments" || "Increments".toList.isSuffixOf d.method.toList

@[simp] theorem modifier?_set (d : ColumnDefinition) (k k' : Modifier) (args : List Literal) :
    (d.set k args).modifier? k' = if k' = k then some args else d.modifier? k' := rfl

theorem mem_modifiers {d : ColumnDefinition} {k : Modifier} {args : List Literal} :
    (k, args) ∈ d.modifiers ↔ d.modifier? k = some args := by
  simp [modifiers, Modifier.mem_all]

def commands (d : ColumnDefinition) : List Command :=
  -- The call stands on a line of its own, and each chained call on a deeper one.
  [.newline, .write "$table", .call d.method d.args,
    .nested (d.modifiers.flatMap (fun (k, args) => [.newline, .call k.method args]) ++
      [.write ";"])]

end ColumnDefinition

structure IndexDefinition where
  method : String
  columns : List String
  deriving DecidableEq, Repr, Inhabited

namespace IndexDefinition

def commands (d : IndexDefinition) : List Command :=
  [.newline, .write "$table", .call d.method [.list (d.columns.map .string)], .write ";"]

end IndexDefinition

def createCommands (name : String) (columns : List ColumnDefinition)
    (indices : List IndexDefinition) : List Command :=
  [.newline,
    .block ("Schema::create(" ++ singleQuoted name ++ ", function (Blueprint $table) \x7b") "\x7d);"
      (columns.flatMap (·.commands) ++ indices.flatMap (·.commands))]

def dropCommands (name : String) : List Command :=
  [.newline, .write ("Schema::drop(" ++ singleQuoted name ++ ");")]

end SchemaMigration
