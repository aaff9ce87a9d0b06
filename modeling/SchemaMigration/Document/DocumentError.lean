import SchemaMigration.Markup.Element

namespace SchemaMigration

inductive DocumentError where
  | missingAttribute (node attr : String) (line : Option Nat)
  | entryCount (found : Nat) (line : Option Nat)
  | cardinality (what : String) (found : Nat)
  | missingCatalog
  | rowStore (cause : String)
  deriving DecidableEq, Repr

def lineText : Option Nat → String
  | some n => "line " ++ toString n
  | none => "<unknown line>"

def DocumentError.message : DocumentError → String
  | missingAttribute node attr line =>
    "missing `" ++ attr ++ "` attribute on <" ++ node ++ "> at " ++ lineText line
  | entryCount found line =>
    "expected exactly one top-level value entry, found " ++ toString found ++
      " (data node at " ++ lineText line ++ ")"
  | cardinality what found =>
    "unsupported document: expected exactly one " ++ what ++ ", found " ++ toString found
  | missingCatalog => "unsupported document: the physical model has no catalog"
  | rowStore cause => "failed to read seed data: " ++ cause

def Element.attr (e : Element) (key : String) : Except DocumentError String :=
  match e.attr? key with
  | some value => .ok value
  | none => .error (.missingAttribute e.name key e.line)

end SchemaMigration
