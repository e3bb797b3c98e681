import MediaMigration.FileTree.Resolution

/-!
# Content to be stored

The content of a blob arrives in reads of at most a buffer's length. It comes from a
sequence of chunks, which may break off with a failure, or from a file of the tree, which
is read after the blob has been opened for writing. An empty chunk ends the content.
-/

namespace MediaMigration

inductive Content where
  | chunks (pieces : List Bytes) (failure? : Option IoError)
  | fileAt (place : Location)
deriving DecidableEq, Repr

/-- What reading a content yields: the reads one by one, then the end or a failure. -/
structure Reading where
  reads : List Bytes
  failure? : Option IoError
deriving DecidableEq, Repr

namespace Content

def bufferSize : Nat := 65536

/-- Cut bytes into pieces of `size`, the last perhaps shorter, as far as `fuel` reaches. -/
def cutWithin (size : Nat) : Nat → Bytes → List Bytes
  | 0, _ => []
  | _, [] => []
  | fuel + 1, bytes => bytes.take size :: cutWithin size fuel (bytes.drop size)

/-- Cut bytes into pieces of a buffer's length. There are no more pieces than bytes. -/
def cutToBuffer (bytes : Bytes) : List Bytes :=
  cutWithin bufferSize bytes.length bytes

/-- Read chunks up to the first empty one. The failure is met only behind all of them. -/
def readChunks : List Bytes → Option IoError → Reading
  | [], failure? => ⟨[], failure?⟩
  | [] :: _, _ => ⟨[], none⟩
  | chunk :: rest, failure? =>
      let reading := readChunks rest failure?
      ⟨cutToBuffer chunk ++ reading.reads, reading.failure?⟩

/-- Read a content while the tree is as given. A directory can be opened but not read. -/
def read (tree : FileTree) : Content → Reading
  | chunks pieces failure? => readChunks pieces failure?
  | fileAt place =>
      match tree.entryAt place with
      | some (.file content) => ⟨cutToBuffer content, none⟩
      | some .directory => ⟨[], some .isDirectory⟩
      | _ => ⟨[], none⟩

end Content

end MediaMigration
