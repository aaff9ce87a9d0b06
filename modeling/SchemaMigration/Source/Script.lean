import SchemaMigration.Source.Literal

/-!
Source text under construction, with the depth at which new lines start, and the commands that
extend it. Nothing is written that no command asks for.
-/

namespace SchemaMigration

structure Script where
  text : String := ""
  depth : Nat := 0
  indentWidth : Nat := 4
  deriving DecidableEq, Repr, Inhabited

namespace Script

def write (s : Script) (text : String) : Script :=
  { s with text := s.text ++ text }

def lineStart (blanks : Nat) : String :=
  String.ofList ('\n' :: List.replicate blanks ' ')

def newline (s : Script) : Script :=
  s.write (lineStart (s.depth * s.indentWidth))

def indent (s : Script) : Script :=
  { s with depth := s.depth + 1 }

def dedent (s : Script) : Script :=
  -- At the outermost level it stays there.
  { s with depth := s.depth - 1 }

def clear (s : Script) : Script :=
  { s with text := "", depth := 0 }

def callText (method : String) (args : List String) : String :=
  "->" ++ method ++ "(" ++ ", ".intercalate args ++ ")"

def callRaw (s : Script) (method : String) (args : List String) : Script :=
  s.write (callText method args)

end Script

/-- One step in the making of a script. Nested commands are carried out one level deeper; a block
has an opening text before them and a closing text on a line of its own. -/
inductive Command where
  | indent
  | dedent
  | newline
  | clear
  | write (text : String)
  | call (method : String) (args : List Literal)
  | callRaw (method : String) (args : List String)
  | nested (body : List Command)
  | block (opening closing : String) (body : List Command)
  deriving Inhabited, Repr

namespace Command

mutual

/-- Carries out a command. A call one of whose arguments has no text writes nothing. Nested
commands return to the level they came from even if one of them fails; a block then leaves its
closing text out. -/
def run : Command → Script → Except LiteralError Unit × Script
  | indent, s => (.ok (), s.indent)
  | dedent, s => (.ok (), s.dedent)
  | newline, s => (.ok (), s.newline)
  | clear, s => (.ok (), s.clear)
  | write text, s => (.ok (), s.write text)
  | call method args, s =>
    match Literal.texts args with
    | .ok texts => (.ok (), s.callRaw method texts)
    | .error e => (.error e, s)
  | callRaw method args, s => (.ok (), s.callRaw method args)
  | nested body, s =>
    match runAll body s.indent with
    | (result, s) => (result, s.dedent)
  | block opening closing body, s =>
    match runAll body (s.write opening).indent with
    | (.ok (), s) => (.ok (), s.dedent.newline.write closing)
    | (.error e, s) => (.error e, s.dedent)

def runAll : List Command → Script → Except LiteralError Unit × Script
  | [], s => (.ok (), s)
  | c :: cs, s =>
    match run c s with
    | (.ok (), s) => runAll cs s
    | (.error e, s) => (.error e, s)

end

end Command

end SchemaMigration
