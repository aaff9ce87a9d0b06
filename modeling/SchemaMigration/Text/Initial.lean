namespace SchemaMigration

def mapInitial (f : Char → Char) (s : String) : String :=
  match s.toList with
  | [] => ""
  | c :: cs => String.ofList (f c :: cs)

def capitalize (s : String) : String :=
  mapInitial Char.toUpper s

def decapitalize (s : String) : String :=
  mapInitial Char.toLower s

end SchemaMigration
