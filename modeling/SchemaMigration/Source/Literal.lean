import SchemaMigration.Numeral.Integer
import SchemaMigration.Source.Quoted

namespace SchemaMigration

/-- A value in source text. Source that is given word for word is `raw`. -/
inductive Literal where
  | string (s : String)
  | int (n : Int64)
  | list (items : List Literal)
  | raw (source : String)
  | bool (b : Bool)
  | null
  deriving Inhabited, Repr

inductive LiteralError where
  | unsupportedLiteral (kind : String)
  deriving DecidableEq, Repr

def LiteralError.message : LiteralError → String
  | unsupportedLiteral kind => "cannot encode a " ++ kind ++ " literal as PHP source"

namespace Literal

def kindName : Literal → String
  | string _ => "string"
  | int _ => "integer"
  | list _ => "list"
  | raw _ => "raw"
  | bool _ => "boolean"
  | null => "null"

mutual

/-- Appends the text of a literal. Truth values and `null` have none: then the answer is an error,
beside what was appended before it. -/
def appendTo : Literal → String → Except LiteralError Unit × String
  | string s, out => (.ok (), out ++ doubleQuoted s)
  | int n, out => (.ok (), out ++ int64Text n)
  | raw source, out => (.ok (), out ++ source)
  | list items, out =>
    match appendItems items (out ++ "[") with
    | (.ok (), out) => (.ok (), out ++ "]")
    | (.error e, out) => (.error e, out)
  | bool _, out => (.error (.unsupportedLiteral "boolean"), out)
  | null, out => (.error (.unsupportedLiteral "null"), out)

def appendItems : List Literal → String → Except LiteralError Unit × String
  | [], out => (.ok (), out)
  | item :: rest, out =>
    match appendTo item out with
    | (.ok (), out) => appendRest rest out
    | (.error e, out) => (.error e, out)

def appendRest : List Literal → String → Except LiteralError Unit × String
  | [], out => (.ok (), out)
  | item :: rest, out =>
    match appendTo item (out ++ ", ") with
    | (.ok (), out) => appendRest rest out
    | (.error e, out) => (.error e, out)

end

def text (l : Literal) : Except LiteralError String :=
  match l.appendTo "" with
  | (.ok (), out) => .ok out
  | (.error e, _) => .error e

def texts (ls : List Literal) : Except LiteralError (List String) :=
  ls.mapM text

end Literal

end SchemaMigration
