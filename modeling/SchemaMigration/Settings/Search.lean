import SchemaMigration.Settings.FileTree
import SchemaMigration.Settings.Reader

/-!
The search for the settings of a project: in a directory, then in its parents. A parent is taken by
the text of the path alone.
-/

namespace SchemaMigration

namespace Path

/-- A path without trailing slashes and trailing parts `.`, both given last character first. The
root and a single `.` stay. -/
def trimEnd : List Char → List Char
  | '/' :: c :: cs => trimEnd (c :: cs)
  | '.' :: '/' :: cs => trimEnd ('/' :: cs)
  | cs => cs

/-- The path without its last part, both given last character first. The empty path and the root
have no part. -/
def parent? (path : List Char) : Option (List Char) :=
  match trimEnd path with
  | [] => none
  | ['/'] => none
  | _ :: cs => some (trimEnd (cs.dropWhile (· ≠ '/')))

theorem length_trimEnd_le (cs : List Char) : (trimEnd cs).length ≤ cs.length := by
  fun_induction trimEnd cs <;> grind

theorem length_parent?_lt {path p : List Char} (h : parent? path = some p) :
    p.length < path.length := by
  have hle := length_trimEnd_le path
  cases ht : trimEnd path with
  | nil => simp [parent?, ht] at h
  | cons c cs =>
    have hp : p = trimEnd (cs.dropWhile (· ≠ '/')) := by grind [parent?]
    have h₁ := length_trimEnd_le (cs.dropWhile (· ≠ '/'))
    have h₂ := (List.dropWhile_suffix (· ≠ '/') : cs.dropWhile _ <:+ cs).length_le
    rw [ht, List.length_cons] at hle
    rw [hp]
    omega

def ancestors (path : List Char) : List (List Char) :=
  path ::
    match _h : parent? path with
    | none => []
    | some p => ancestors p
termination_by path.length
decreasing_by exact length_parent?_lt _h

def join (directory path : String) : String :=
  if directory = "" ∨ directory.endsWith "/" then directory ++ path else directory ++ "/" ++ path

end Path

def FileNode.settings : FileNode → Except SettingsError Settings
  | .directory => .error (.io "is a directory")
  | .file bytes =>
    match String.fromUTF8? bytes with
    | some content => Settings.read content
    | none => .error (.io "stream did not contain valid UTF-8")

namespace Settings

def candidates (start : String) : List String :=
  (Path.ancestors start.toList.reverse).map fun d =>
    Path.join (String.ofList d.reverse) settingsPath

def find (tree : FileTree) (workingDirectory : List String) (start : String) :
    Except SettingsError (Settings × String) :=
  -- The first place where anything stands decides.
  -- A directory in place of the file ends the search as well.
  let found := (candidates start).findSome? fun path =>
    (tree.resolve? workingDirectory path).map fun node => (node, path)
  match found with
  | none => .error .notFound
  | some (node, path) => node.settings.map fun s => (s, path)

inductive WorkingDirectory where
  | path (parts : List String)
  | nonUtf8 (shown : String)
  deriving DecidableEq, Repr

def findHere (tree : FileTree) : WorkingDirectory → Except SettingsError (Settings × String)
  | .path parts => find tree parts ("/" ++ "/".intercalate parts)
  | .nonUtf8 shown => .error (.nonUtf8Path shown)

end Settings

end SchemaMigration
