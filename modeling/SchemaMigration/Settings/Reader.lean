import SchemaMigration.Numeral.Integer
import SchemaMigration.Settings.Basic
import SchemaMigration.Settings.Token
import SchemaMigration.Text.Enclosed

namespace SchemaMigration

inductive SettingValue where
  | number (n : Nat)
  | texts (ss : List String)
  deriving DecidableEq, Repr

/-- What the next token of a settings text belongs to: a new entry, the end of a line, or a list,
which takes a comma after an item and an item, or nothing, after a comma. -/
inductive EntryState where
  | start
  | lineEnd
  | list (key : String) (items : List String) (afterItem : Bool)
  deriving DecidableEq, Repr

namespace Settings

def readDigits? (base : Nat) (cs : List Char) : Option Nat :=
  let groups := segments '_' cs
  if groups.contains [] then none else Token.number? base groups.flatten

def readDecimal? (cs : List Char) : Option Nat :=
  if cs.head? = some '0' ∧ cs ≠ ['0'] then none else readDigits? 10 cs

def readNumber? (cs : List Char) : Option Nat :=
  -- No number below zero has a meaning, and none above the signed 64-bit range.
  let value :=
    match cs with
    | '0' :: 'x' :: ds => readDigits? 16 ds
    | '0' :: 'o' :: ds => readDigits? 8 ds
    | '0' :: 'b' :: ds => readDigits? 2 ds
    | '+' :: ds => readDecimal? ds
    | '-' :: ds => (readDecimal? ds).filter (· = 0)
    | ds => readDecimal? ds
  value.filter (toInt64? · |>.isSome)

def key? : Token → Option String
  | .word s => some (String.ofList s)
  | .text s false => some (String.ofList s)
  | _ => none

def readEntries? : EntryState → List Token → Option (List (String × SettingValue))
  | .start, [] => some []
  | .lineEnd, [] => some []
  | .start, .newline :: ts => readEntries? .start ts
  | .lineEnd, .newline :: ts => readEntries? .start ts
  | .start, k :: .equals :: .word w :: ts =>
    match key? k, readNumber? w, readEntries? .lineEnd ts with
    | some key, some n, some rest => some ((key, .number n) :: rest)
    | _, _, _ => none
  | .start, k :: .equals :: .openList :: ts =>
    match key? k with
    | some key => readEntries? (.list key [] false) ts
    | none => none
  | .list key items afterItem, .newline :: ts => readEntries? (.list key items afterItem) ts
  | .list key items _, .closeList :: ts =>
    (readEntries? .lineEnd ts).map ((key, .texts items) :: ·)
  | .list key items false, .text s _ :: ts =>
    readEntries? (.list key (items ++ [String.ofList s]) true) ts
  | .list key items true, .comma :: ts => readEntries? (.list key items false) ts
  | _, _ => none

def assign? (s : Settings) : String × SettingValue → Option Settings
  | ("indent_width", .number n) => some { s with indentWidth := n }
  | ("include_tables", .texts ts) => some { s with includeTables := ts }
  | ("exclude_tables", .texts ts) => some { s with excludeTables := ts }
  | _ => none

def ofEntries? (entries : List (String × SettingValue)) : Option Settings :=
  if (entries.map Prod.fst).Nodup then entries.foldlM assign? {} else none

def read (content : String) : Except SettingsError Settings :=
  -- A byte order mark before the text is left out.
  let cs :=
    match content.toList with
    | '\ufeff' :: cs => cs
    | cs => cs
  match ((Token.scan cs).bind (readEntries? .start)).bind ofEntries? with
  | some s => .ok s
  | none => .error (.parse "the text is not a table of settings")

end Settings

end SchemaMigration
