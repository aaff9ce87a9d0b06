import SchemaMigration.Text.Caseless
import SchemaMigration.Text.Enclosed

namespace SchemaMigration

def unsetSize : Int64 := -1

/-- A column. `simpleType` is a type name behind a dotted path, `explicitParams` the text in
parentheses after it, `generatedStorage` one of `VIRTUAL` and `STORED`. -/
structure Column where
  id : String := ""
  name : String := ""
  comment : String := ""
  simpleType : String := ""
  autoIncrement : Bool := false
  characterSetName : String := ""
  collationName : String := ""
  explicitParams : String := ""
  expression : String := ""
  generated : Bool := false
  generatedStorage : String := ""
  defaultValue : String := ""
  defaultValueIsNull : Bool := false
  flags : List String := []
  isNotNull : Bool := false
  length : Int64 := unsetSize
  precision : Int64 := unsetSize
  scale : Int64 := unsetSize
  deriving DecidableEq, Repr, Inhabited

namespace Column

def typeName (c : Column) : String :=
  -- What stands before the last dot is a path.
  String.ofList (c.simpleType.toList.reverse.takeWhile (· ≠ '.')).reverse

/-- The last piece of a text between some marks is what stands in front of the first mark from the
end. -/
theorem getLast?_splitOn_reverse (mark : Char) (cs : List Char) :
    (cs.reverse.splitOn mark).getLast? = some (cs.takeWhile (· ≠ mark)).reverse := by
  have hkeep {name : List Char} (hname : mark ∉ name) (rest : List Char) :
      (name ++ rest).takeWhile (· ≠ mark) = name ++ rest.takeWhile (· ≠ mark) := by
    apply List.takeWhile_append_of_pos
    intro c hc
    have hne : c ≠ mark := fun heq => hname (heq ▸ hc)
    simpa using hne
  by_cases hmark : mark ∈ cs
  · obtain ⟨name, path, rfl, hname⟩ := List.eq_append_cons_of_mem hmark
    have hpiece : mark ∉ name.reverse := by simpa using hname
    rw [hkeep hname, List.takeWhile_cons_of_neg (by simp), List.append_nil, List.reverse_append,
      List.reverse_cons, List.append_assoc, List.singleton_append, List.splitOn_append_cons_self,
      List.splitOn_eq_singleton hpiece, List.getLast?_concat]
  · have hpiece : mark ∉ cs.reverse := by simpa using hmark
    have hall := hkeep hmark []
    rw [List.append_nil, List.takeWhile_nil, List.append_nil] at hall
    rw [hall, List.splitOn_eq_singleton hpiece, List.getLast?_singleton]

/-- The name of the type is the last of the pieces between the dots. -/
theorem getLast?_splitOn_simpleType (c : Column) :
    (c.simpleType.toList.splitOn '.').getLast? = some c.typeName.toList := by
  have hlast := getLast?_splitOn_reverse '.' c.simpleType.toList.reverse
  rw [List.reverse_reverse] at hlast
  rw [hlast, typeName, String.toList_ofList]

def isUnsigned (c : Column) : Bool :=
  c.flags.any (equalsIgnoringCase · "UNSIGNED")

def isNullable (c : Column) : Bool :=
  !c.isNotNull

def defaultText? (c : Column) : Option String :=
  if c.defaultValue = "" ∨ c.defaultValueIsNull then none else some c.defaultValue

def values (c : Column) : List String :=
  (enclosed '\'' c.explicitParams.toList).map String.ofList

end Column

end SchemaMigration
