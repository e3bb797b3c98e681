import MediaMigration.Error
import MediaMigration.FileTree.Change

/-!
# Blob stores

A blob store keeps its containers as directories below a root and the blobs of a container
as files below its directory. Names that could lead outside are refused before any file
is touched.
-/

namespace MediaMigration

/-- A store below `root`. Existing blobs are replaced only if `overwrite` says so. -/
structure BlobStore where
  root : FilePath
  overwrite : Bool
deriving DecidableEq, Repr

namespace BlobStore

/-- A name without `..`, without a `.` or a slash in front, and not empty. -/
def isPlainName (name : String) : Bool :=
  name != "" && (FilePath.components ⟨name⟩).all fun component =>
    match component with
    | .name _ => true
    | _ => false

def namesRefused : String :=
  "container and blob names must be relative paths"

/-- The path of a blob. A container is a single plain name, a blob name may have several
parts. -/
def blobPath (store : BlobStore) (container blob : String) : Except MigrationError FilePath :=
  if !isPlainName container || container.toList.contains '/' || !isPlainName blob then
    .error (.uploadFailed container blob namesRefused)
  else .ok ((store.root.join ⟨container⟩).join ⟨blob⟩)

end BlobStore

end MediaMigration
