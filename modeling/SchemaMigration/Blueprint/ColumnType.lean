import SchemaMigration.Text.Initial

namespace SchemaMigration

inductive IntegerSize where
  | tiny
  | small
  | medium
  | regular
  | big
  deriving DecidableEq, Repr, Inhabited

namespace IntegerSize

def token : IntegerSize → String
  | tiny => "Tiny"
  | small => "Small"
  | medium => "Medium"
  | regular => ""
  | big => "Big"

def counting (s : IntegerSize) : String :=
  decapitalize (s.token ++ "Increments")

def unsigned (s : IntegerSize) : String :=
  "unsigned" ++ s.token ++ "Integer"

def signed (s : IntegerSize) : String :=
  decapitalize (s.token ++ "Integer")

end IntegerSize

/-- A column type by its family. All but the integers carry the method that declares the type; a
residual type takes no argument but the name of the column. -/
inductive ColumnType where
  | integer (size : IntegerSize)
  | decimal (method : String)
  | string (method : String)
  | time (method : String)
  | enumerated (method : String)
  | residual (method : String)
  deriving DecidableEq, Repr, Inhabited

namespace ColumnType

def integers : List (String × IntegerSize) :=
  [("tinyint", .tiny), ("smallint", .small), ("mediumint", .medium), ("int", .regular),
    ("bigint", .big)]

def decimals : List (String × String) :=
  [("float", "float"), ("double", "double"), ("real", "double"), ("decimal", "decimal")]

def strings : List (String × String) :=
  [("char", "char"), ("nchar", "char"), ("varchar", "string"), ("nvarchar", "string")]

def times : List (String × String) :=
  [("date", "date"), ("time", "time"), ("time_f", "time"), ("datetime", "datetime"),
    ("datetime_f", "datetime"), ("timestamp", "timestamp"), ("timestamp_f", "timestamp")]

def enumerations : List (String × String) :=
  [("enum", "enum"), ("set", "set")]

def residuals : List (String × String) :=
  [("tinytext", "tinyText"), ("text", "text"), ("mediumtext", "mediumText"),
    ("longtext", "longText"), ("binary", "blob"), ("varbinary", "blob"), ("tinyblob", "blob"),
    ("blob", "blob"), ("mediumblob", "blob"), ("longblob", "blob"), ("json", "json"),
    ("boolean", "boolean"), ("year", "year"), ("geometry", "geometry"), ("point", "point"),
    ("linestring", "lineString"), ("polygon", "polygon"),
    ("geometrycollection", "geometryCollection"), ("multipoint", "multiPoint"),
    ("multilinestring", "multiLineString"), ("multipolygon", "multiPolygon")]

def named : List (String × ColumnType) :=
  integers.map (fun (t, size) => (t, integer size)) ++
    decimals.map (fun (t, method) => (t, decimal method)) ++
    strings.map (fun (t, method) => (t, string method)) ++
    times.map (fun (t, method) => (t, time method)) ++
    enumerations.map (fun (t, method) => (t, enumerated method)) ++
    residuals.map (fun (t, method) => (t, residual method))

def ofName? (name : String) : Option ColumnType :=
  named.lookup name

/-- No type stands twice, so each has a single family. -/
theorem nodup_named : (named.map Prod.fst).Nodup := by
  decide

end ColumnType

end SchemaMigration
