import MediaMigration.ResourceName

/-!
# Placement of blobs

An expanded name says where blobs go: the part before the first slash is the container,
the rest is put in front of the names of the blobs.
-/

namespace MediaMigration

/-- A container and what the names of blobs start with there: nothing, or a text that
ends in a slash. -/
structure Placement where
  container : String
  namePrefix : String
deriving DecidableEq, Repr

namespace Placement

def clampContainer (container : List Char) : List Char :=
  (Unicode.lowercase container).take ResourceName.maxLength

def endWithSlash (text : List Char) : List Char :=
  if text.getLast? = some '/' then text else text ++ ['/']

def ofName (name : String) : Placement :=
  let chars := name.toList
  match chars.dropWhile (· ≠ '/') with
  | [] => ⟨String.ofList (clampContainer chars), ""⟩
  | _ :: rest =>
      ⟨String.ofList (clampContainer (chars.takeWhile (· ≠ '/'))),
        String.ofList (endWithSlash rest)⟩

def dropLeadingSlashes (text : List Char) : List Char :=
  text.dropWhile (· = '/')

/-- The name of the blob of a file stored here. A prefix of slashes alone puts the file
at the root of the container. -/
def blobName (placement : Placement) (fileName : String) : String :=
  String.ofList (dropLeadingSlashes
    (placement.namePrefix.toList ++ dropLeadingSlashes fileName.toList))

def toString (placement : Placement) : String :=
  placement.container ++ "/" ++ placement.namePrefix

end Placement

end MediaMigration
