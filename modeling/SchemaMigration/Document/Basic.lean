import SchemaMigration.Document.DocumentError
import SchemaMigration.Document.OnceMap
import SchemaMigration.Entity.Basic

namespace SchemaMigration

/-- What is known of an object by its id: its structure name, empty for the entry of the document,
and its line. -/
structure IdOwner where
  structName : String
  line : Option Nat
  deriving DecidableEq, Repr, Inhabited

def IdOwner.struct? (o : IdOwner) : Option Struct :=
  Struct.ofName? o.structName

structure Document where
  models : List Model := []
  ids : OnceMap IdOwner := {}
  deriving Inhabited

namespace Document

def same (d e : Document) : Bool :=
  d.models == e.models && d.ids.sameEntries e.ids

/-- Lets only documents pass that have one model, with a catalog, with one schema. -/
def requireSingleSchema (d : Document) : Except DocumentError Unit :=
  match d.models with
  | [m] =>
    match m.catalog with
    | none => .error .missingCatalog
    | some c =>
      if c.schemata.length = 1 then .ok () else .error (.cardinality "schema" c.schemata.length)
  | models => .error (.cardinality "physical model" models.length)

def schema? (d : Document) : Option Schema :=
  d.models.head?.bind fun m => m.catalog.bind fun c => c.schemata.head?

def tables (d : Document) : List Table :=
  match d.schema? with
  | some s => s.tables
  | none => []

def tableById? (d : Document) (id : String) : Option Table :=
  d.tables.find? (·.id == id)

end Document

end SchemaMigration
