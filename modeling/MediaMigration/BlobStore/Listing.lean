import MediaMigration.BlobStore.Basic
import MediaMigration.FileTree.Traversal

/-!
# Listing a container

The blobs of a container are the regular files at any depth below its directory, named by
the way to them. A container that is not there has no blobs.
-/

namespace MediaMigration

namespace BlobStore

def sortNames (names : List String) : List String :=
  names.mergeSort fun a b => decide (a ≤ b)

/-- The files that lie where a path leads, by the names on the way to them. A link at the
end of the path is followed to a directory only, and a file has no way to go. -/
def filesAt (tree : FileTree) (path : FilePath) : Except IoError (List Location) :=
  match tree.lookUp false path with
  | .error error => .error error
  | .ok (_, .file _) => .ok [[]]
  | .ok (place, .directory) => tree.traverse path place
  | .ok (_, .link _) =>
      match tree.lookUp true path with
      | .error error => .error error
      | .ok (place, .directory) => tree.traverse path place
      | .ok _ => .ok []

def list (store : BlobStore) (container : String) (tree : FileTree) :
    Except MigrationError (List String) :=
  let dir := store.root.join ⟨container⟩
  match tree.exists? dir with
  | .error error => .error (.io error)
  | .ok false => .ok []
  | .ok true =>
      match filesAt tree dir with
      | .error error => .error (.io error)
      | .ok files => .ok (sortNames (files.map FilePath.joinNames))

end BlobStore

end MediaMigration
