namespace SchemaMigration

/-- The blanks for each level of the generated text, the only tables to generate, if there are any,
and the tables to leave out. -/
structure Settings where
  indentWidth : Nat := 4
  includeTables : List String := []
  excludeTables : List String := []
  deriving DecidableEq, Repr, Inhabited

def Settings.includes (s : Settings) (table : String) : Bool :=
  (s.includeTables.isEmpty || s.includeTables.contains table) && !s.excludeTables.contains table

def settingsPath : String := ".config/mwbkit.toml"

inductive SettingsError where
  | notFound
  | io (cause : String)
  | parse (cause : String)
  | nonUtf8Path (path : String)
  deriving DecidableEq, Repr

def SettingsError.message : SettingsError → String
  | notFound => "no " ++ settingsPath ++ " found in the start directory or any parent"
  | io cause => "failed to read " ++ settingsPath ++ ": " ++ cause
  | parse cause => "failed to parse " ++ settingsPath ++ ": " ++ cause
  | nonUtf8Path path => "path is not valid UTF-8: " ++ path

end SchemaMigration
