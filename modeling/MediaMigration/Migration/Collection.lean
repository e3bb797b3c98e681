import MediaMigration.FileTree.Traversal

/-!
# Collecting files

The inputs of an asset are files and directories. A file is collected under its last
name, a directory gives all files below it under the ways that lead to them. An input that
cannot be found, or a directory that cannot be gone through, fails the whole collection.
-/

namespace MediaMigration

/-- A file to upload: the path to open it by, and its name relative to the input. -/
structure CollectedFile where
  path : FilePath
  name : String
deriving DecidableEq, Repr

namespace CollectedFile

def below (dir : FilePath) (names : Location) : CollectedFile :=
  ⟨dir.below names, FilePath.joinNames names⟩

def ofInput (tree : FileTree) (path : FilePath) (place : Location) :
    Entry → Except IoError (List CollectedFile)
  | .file _ => .ok [⟨path, path.fileName?.getD ""⟩]
  | _ => (tree.traverse path place).map fun files => files.map (below path)

def collect (tree : FileTree) (root : FilePath) :
    List FilePath → Except IoError (List CollectedFile)
  | [] => .ok []
  | input :: rest =>
      match tree.lookUp true (root.join input) with
      | .error error => .error error
      | .ok (place, entry) =>
          match ofInput tree (root.join input) place entry with
          | .error error => .error error
          | .ok files =>
              match collect tree root rest with
              | .error error => .error error
              | .ok others => .ok (files ++ others)

end CollectedFile

end MediaMigration
