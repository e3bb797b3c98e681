import MediaMigration.FileTree.Path

/-!
# Failures of file operations

The causes for which looking up, reading or changing a file can fail, with the words
and numbers of the operating system where it is the one to refuse. A failure on the way
through a directory names the path where it happened.
-/

namespace MediaMigration

inductive IoError where
  | notFound
  | alreadyExists
  | notDirectory
  | isDirectory
  | nameTooLong
  | tooManyLinks
  | nulInPath
  | invalidText
  | noAncestor
  | inTraversal (path : FilePath) (cause : IoError)
  | other (text : String)
deriving DecidableEq, Repr

def IoError.message : IoError → String
  | notFound => "No such file or directory (os error 2)"
  | alreadyExists => "File exists (os error 17)"
  | notDirectory => "Not a directory (os error 20)"
  | isDirectory => "Is a directory (os error 21)"
  | nameTooLong => "File name too long (os error 36)"
  | tooManyLinks => "Too many levels of symbolic links (os error 40)"
  | nulInPath => "file name contained an unexpected NUL byte"
  | invalidText => "stream did not contain valid UTF-8"
  | noAncestor => "failed to create whole tree"
  | inTraversal path cause => "IO error for operation on " ++ path.text ++ ": " ++ cause.message
  | other text => text

end MediaMigration
