import MediaMigration.FileTree.Resolution

/-!
# Traversal of a directory

The files below a directory are found by opening the directory and every one below it, each
before what lies in it and in byte order of the names. A directory is opened by the path of
the first one with the names behind it, and that path can be too long even where no name
is. The files themselves are only seen, not opened.
-/

namespace MediaMigration

namespace FileTree

/-- The first directory below one at a path that has too long a path to be opened. -/
def outOfReach? (tree : FileTree) (path : FilePath) (place : Location) : Option FilePath :=
  ((tree.directoriesBelow place).map path.below).find? fun dir =>
    maxPathBytes ≤ dir.text.utf8ByteSize

def traverse (tree : FileTree) (path : FilePath) (place : Location) :
    Except IoError (List Location) :=
  match tree.outOfReach? path place with
  | some dir => .error (.inTraversal dir .nameTooLong)
  | none => .ok (tree.filesBelow place)

end FileTree

end MediaMigration
