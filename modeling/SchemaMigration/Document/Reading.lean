import SchemaMigration.Document.Basic
import SchemaMigration.Document.Records

/-!
Reading a document from an element tree. Reading goes through the tree in order and stops at the
first attribute that is missing; it reports the objects that it saw, an object after those within
it.
-/

namespace SchemaMigration

abbrev Sightings := List (String × IdOwner)

inductive Form where
  | list
  | entity (struct : Struct)
  | unknown (structName : String)
  | scalar
  | link
  | skipped
  deriving DecidableEq, Repr

namespace Element

def form (e : Element) : Except DocumentError Form := do
  if e.name = "value" then
    let type ← e.attr "type"
    if type = "list" then return .list
    if type = "object" then
      let structName ← e.attr "struct-name"
      match Struct.ofName? structName with
      | some struct => return .entity struct
      | none => return .unknown structName
    return .scalar
  if e.name = "link" then return .link
  return .skipped

def sighting (e : Element) : Sightings :=
  match e.attr? "id" with
  | some id => [(id, ⟨(e.attr? "struct-name").getD "", e.line⟩)]
  | none => []

mutual

def decode : Element → Except DocumentError (Option Datum × Sightings)
  | e@⟨_, _, _, _, children⟩ => do
    match ← e.form with
    | .list =>
      let (items, seen) ← decodeItems children
      return (some (.list items), seen)
    | .entity struct =>
      let (members, seen) ← decodeMembers struct.keys children
      -- The objects within come first: of two with one id the inner one keeps it.
      return (some (.entity (struct.build members (e.attr? "id"))), seen ++ e.sighting)
    | .unknown structName => return (some (.unknown structName (e.attr? "id")), e.sighting)
    | .scalar => return (some (.text e.content), [])
    | .link => return (some (.link e.content), [])
    | .skipped => return (none, [])

def decodeItems : List Element → Except DocumentError (List Datum × Sightings)
  | [] => return ([], [])
  | e :: es => do
    let (item, seen) ← e.decode
    let (items, seen') ← decodeItems es
    return (item.toList ++ items, seen ++ seen')

/-- The values of the members of an object whose keys are wanted, in order. Every member has to
have a key. -/
def decodeMembers (keys : List String) :
    List Element → Except DocumentError (List (String × Datum) × Sightings)
  | [] => return ([], [])
  | e :: es => do
    let key ← e.attr "key"
    -- A member that is not wanted is not looked into, whatever it holds.
    if key ∈ keys then
      let (value, seen) ← e.decode
      let (members, seen') ← decodeMembers keys es
      return (value.toList.map (key, ·) ++ members, seen ++ seen')
    else
      decodeMembers keys es

end

mutual

/-- The values that stand in an element named `data` anywhere in a tree. -/
def entries : Element → List Element
  | ⟨name, _, _, _, children⟩ =>
    (if name = "data" then children.filter (·.name = "value") else []) ++ entriesOf children

def entriesOf : List Element → List Element
  | [] => []
  | e :: es => e.entries ++ entriesOf es

end

mutual

def dataLine? : Element → Option Nat
  -- An element with that name is not searched, whether its line is known or not.
  | ⟨name, _, _, line, children⟩ => if name = "data" then line else dataLineOf? children

def dataLineOf? : List Element → Option Nat
  | [] => none
  | e :: es => e.dataLine?.or (dataLineOf? es)

end

end Element

namespace Document

def ofEntry (entry : Element) : Except DocumentError Document := do
  let (members, seen) ← Element.decodeMembers [modelsField.key] entry.children
  return {
    models := members.foldl (Field.assignTo [modelsField]) []
    ids := OnceMap.ofList (seen ++ entry.sighting) }

def read (root : Element) : Except DocumentError Document :=
  match root.entries with
  | [entry] => ofEntry entry
  | entries => .error (.entryCount entries.length root.dataLine?)

def readSingle (root : Element) : Except DocumentError Document := do
  let d ← read root
  d.requireSingleSchema
  return d

end Document

end SchemaMigration
