import SchemaMigration.Numeral.Integer

namespace SchemaMigration

/-- An element with its attributes in the order of their first setting, its own text, the line
where it starts, if known, and its child elements. -/
structure Element where
  name : String
  attrs : List (String × String) := []
  text : String := ""
  line : Option Nat := none
  children : List Element := []
  deriving Inhabited, Repr

def setEntry (key value : String) : List (String × String) → List (String × String)
  -- A key that is there keeps its place.
  | [] => [(key, value)]
  | (k, v) :: rest =>
    if k = key then (key, value) :: rest else (k, v) :: setEntry key value rest

/-- Setting a key leaves the values of the other keys as they are. -/
theorem lookup_setEntry (key value k : String) (attrs : List (String × String)) :
    (setEntry key value attrs).lookup k = if k = key then some value else attrs.lookup k := by
  induction attrs with
  | nil =>
    by_cases h : k = key
    · simp [setEntry, h]
    · simp [setEntry, List.lookup_cons, h, beq_eq_false_iff_ne.mpr h]
  | cons a rest ih =>
    obtain ⟨k', v⟩ := a
    by_cases hk : k' = key
    -- The key stands here and gets its new value here.
    · subst hk
      by_cases h : k = k'
      · simp [setEntry, h]
      · simp [setEntry, List.lookup_cons, h, beq_eq_false_iff_ne.mpr h]
    -- The key stands further on or nowhere.
    · by_cases h : k = k'
      · subst h
        simp [setEntry, hk]
      · simp [setEntry, hk, List.lookup_cons, ih, beq_eq_false_iff_ne.mpr h]

namespace Element

def attr? (e : Element) (key : String) : Option String :=
  e.attrs.lookup key

mutual

def content : Element → String
  -- The own text stands before the texts of the children.
  | ⟨_, _, text, _, children⟩ => text ++ contents children

def contents : List Element → String
  | [] => ""
  | e :: es => e.content ++ contents es

end

def setAttr (e : Element) (key value : String) : Element :=
  { e with attrs := setEntry key value e.attrs }

def setKey (e : Element) (key : String) : Element :=
  e.setAttr "key" key

def setId (e : Element) (id : String) : Element :=
  e.setAttr "id" id

def setText (e : Element) (text : String) : Element :=
  { e with text }

def setLine (e : Element) (line : Nat) : Element :=
  { e with line := some line }

def addChildren (e : Element) (children : List Element) : Element :=
  { e with children := e.children ++ children }

def addChild (e child : Element) : Element :=
  e.addChildren [child]

def data (entries : List Element) : Element :=
  { name := "data", children := entries }

def object (structName : String) : Element :=
  { name := "value", attrs := [("type", "object"), ("struct-name", structName)] }

def list : Element :=
  { name := "value", attrs := [("type", "list")] }

def scalar (type text : String) : Element :=
  { name := "value", attrs := [("type", type)], text }

def string (text : String) : Element :=
  scalar "string" text

def int (n : Int64) : Element :=
  scalar "int" (int64Text n)

def link (id : String) : Element :=
  { name := "link", text := id }

theorem attr?_setAttr (e : Element) (key value k : String) :
    (e.setAttr key value).attr? k = if k = key then some value else e.attr? k :=
  lookup_setEntry key value k e.attrs

end Element

end SchemaMigration
