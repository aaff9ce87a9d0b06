namespace SchemaMigration

inductive FileNode where
  | file (bytes : ByteArray)
  | directory
  deriving Inhabited

/-- The files and directories of a tree by the names on the way from its root. The directories on
the way to an entry are part of the tree. -/
structure FileTree where
  entries : List (List String × FileNode) := []
  deriving Inhabited

/-- The parts of a path between its slashes, without those that lead nowhere. -/
def pathParts (path : String) : List String :=
  (path.splitOn "/").filter fun part => part != "" && part != "."

namespace FileTree

def ofPaths (files : List (String × FileNode)) : FileTree :=
  ⟨files.map fun (path, node) => (pathParts path, node)⟩

def node? (tree : FileTree) (place : List String) : Option FileNode :=
  if place = [] then some .directory
  else
    -- A place without an entry is a directory if some entry lies below it.
    (tree.entries.lookup place).or
      (if tree.entries.any fun e => place.isPrefixOf e.1 then some .directory else none)

def step? (tree : FileTree) (place : List String) (part : String) : Option (List String) :=
  match tree.node? place with
  | some .directory =>
    if part = ".." then some place.dropLast
    else (tree.node? (place ++ [part])).map fun _ => place ++ [part]
  | _ => none

def place? (tree : FileTree) (workingDirectory : List String) (path : String) :
    Option (List String) :=
  (pathParts path).foldlM tree.step? (if path.startsWith "/" then [] else workingDirectory)

def resolve? (tree : FileTree) (workingDirectory : List String) (path : String) :
    Option FileNode :=
  (tree.place? workingDirectory path).bind tree.node?

end FileTree

end SchemaMigration
