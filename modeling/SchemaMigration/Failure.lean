import SchemaMigration.Blueprint.Lowering
import SchemaMigration.Document.DocumentError
import SchemaMigration.Settings.Basic

namespace SchemaMigration

inductive Failure where
  | document (e : DocumentError)
  | lowering (e : LoweringError)
  | settings (e : SettingsError)
  deriving DecidableEq, Repr

namespace Failure

def message : Failure → String
  | document e => e.message
  | lowering e => e.message
  | settings e => e.message

def source? : Failure → Option String
  | document (.rowStore cause) => some cause
  | settings (.io cause) => some cause
  | _ => none

end Failure

end SchemaMigration
