import SchemaMigration.Entity.Basic
import SchemaMigration.Numeral.Decimal

namespace SchemaMigration

/-- A value of a document. An object whose structure name stands for no entity keeps that name and
its id alone. -/
inductive Datum where
  | text (s : String)
  | link (id : String)
  | list (items : List Datum)
  | entity (e : Entity)
  | unknown (structName : String) (id : Option String)
  deriving Inhabited, Repr

namespace Datum

def text? : Datum → Option String
  | text s => some s
  | link id => some id
  | _ => none

def integer? (d : Datum) : Option Int64 :=
  -- Blanks around the numeral have no part in it.
  d.text?.bind fun s => readWhole? (trim s.toList)

def flag? (d : Datum) : Option Bool :=
  d.integer?.map (· != 0)

def texts? : Datum → Option (List String)
  | list items => some (items.filterMap text?)
  | _ => none

def entity? {α : Type} (ofEntity? : Entity → Option α) : Datum → Option α
  | entity e => ofEntity? e
  | _ => none

def entities? {α : Type} (ofEntity? : Entity → Option α) : Datum → Option (List α)
  | list items => some (items.filterMap (entity? ofEntity?))
  | _ => none

def struct? : Datum → Option Struct
  | entity e => some e.struct
  | _ => none

end Datum

end SchemaMigration
