import SchemaMigration.Document.Datum
import SchemaMigration.Markup.Element

/-!
Fields of entities as members of objects. A record lists the fields of one structure; from it an
entity is built out of members, and an object out of an entity.
-/

namespace SchemaMigration

/-- How a document holds a value of a type. Nothing is written for an absent value. -/
structure Content (α : Type) where
  read : Datum → Option α
  write : α → Option Element

structure Field (ρ : Type) where
  key : String
  assign : ρ → Datum → Option ρ
  member : ρ → Option Element

/-- What the entities of a structure are made of. -/
structure Record (ρ : Type) where
  struct : Struct
  blank : ρ
  id : ρ → String
  setId : ρ → String → ρ
  ofEntity? : Entity → Option ρ
  fields : List (Field ρ)

namespace Field

def of {ρ α : Type} (key : String) (content : Content α) (get : ρ → α) (put : ρ → α → ρ) :
    Field ρ where
  key := key
  assign x d := (content.read d).map (put x)
  member x := (content.write (get x)).map (·.setKey key)

def assignTo {ρ : Type} (fields : List (Field ρ)) (x : ρ) (member : String × Datum) : ρ :=
  -- An unknown key or a value of the wrong shape changes nothing.
  match fields.find? (·.key == member.1) with
  | some f => (f.assign x member.2).getD x
  | none => x

end Field

namespace Record

variable {ρ : Type}

def keys (r : Record ρ) : List String :=
  r.fields.map (·.key)

def build (r : Record ρ) (members : List (String × Datum)) (id? : Option String) : ρ :=
  let x := members.foldl (Field.assignTo r.fields) r.blank
  match id? with
  | some id => r.setId x id
  | none => x

def element (r : Record ρ) (x : ρ) : Element :=
  ((Element.object r.struct.name).setId (r.id x)).addChildren
    (r.fields.filterMap (·.member x))

end Record

namespace Content

def text : Content String :=
  ⟨Datum.text?, fun s => some (.string s)⟩

def reference : Content String :=
  ⟨Datum.text?, fun id => some (.link id)⟩

def reference? : Content (Option String) :=
  ⟨fun d => d.text?.map some, fun id => id.map .link⟩

def integer : Content Int64 :=
  ⟨Datum.integer?, fun n => some (.int n)⟩

def flag : Content Bool :=
  ⟨Datum.flag?, fun b => some (.int (if b then 1 else 0))⟩

def texts : Content (List String) :=
  ⟨Datum.texts?, fun ss => some (Element.list.addChildren (ss.map .string))⟩

def references : Content (List String) :=
  ⟨Datum.texts?, fun ids => some (Element.list.addChildren (ids.map .link))⟩

def entity? {ρ : Type} (r : Record ρ) : Content (Option ρ) :=
  ⟨fun d => (d.entity? r.ofEntity?).map some, fun x => x.map r.element⟩

def records {ρ : Type} (r : Record ρ) : Content (List ρ) :=
  ⟨Datum.entities? r.ofEntity?, fun xs => some (Element.list.addChildren (xs.map r.element))⟩

end Content

end SchemaMigration
