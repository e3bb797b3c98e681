import MediaMigration.FileTree.Resolution

/-!
# Changes of a tree

Directories are made one by one or with all that are missing above them, links are made,
files are opened for writing either as new ones only or in place of old ones, and a file or a
link is removed by its path. Nothing else changes a tree.
-/

namespace MediaMigration

namespace FileTree

def makeDirectory (tree : FileTree) (path : FilePath) : Except IoError FileTree :=
  match tree.resolve .name path with
  | .error error => .error error
  | .ok (.self _, _) => .error .alreadyExists
  | .ok (.child dir name, _) =>
      match tree.entryAt (dir ++ [name]) with
      | some _ => .error .alreadyExists
      | none => .ok (tree.put (dir ++ [name]) .directory)

/-- Make the first path of a list a directory; the rest of the list are the paths above
it. Where a directory is already, nothing is done. -/
def makeDirectories (tree : FileTree) : List FilePath → Except IoError Unit × FileTree
  | [] => (.error .noAncestor, tree)
  | path :: above =>
      if path.text = "" then (.ok (), tree)
      else
        match tree.makeDirectory path with
        | .ok made => (.ok (), made)
        | .error .notFound =>
            match tree.makeDirectories above with
            | (.error error, made) => (.error error, made)
            | (.ok (), made) =>
                match made.makeDirectory path with
                | .ok made => (.ok (), made)
                | .error error =>
                    if made.isDirectory path then (.ok (), made) else (.error error, made)
        | .error error => if tree.isDirectory path then (.ok (), tree) else (.error error, tree)

/-- Make a directory and all that are missing above it. What was made stays when a later
step fails. -/
def makeDirectoryPath (tree : FileTree) (path : FilePath) : Except IoError Unit × FileTree :=
  tree.makeDirectories path.ancestors

def makeParent (tree : FileTree) (path : FilePath) : Except IoError Unit × FileTree :=
  match path.parent? with
  | some parent => tree.makeDirectoryPath parent
  | none => (.ok (), tree)

def createNew (tree : FileTree) (path : FilePath) : Except IoError (Location × FileTree) :=
  match tree.resolve (.write false) path with
  | .error error => .error error
  | .ok (.self _, _) => .error .alreadyExists
  | .ok (.child dir name, _) =>
      match tree.entryAt (dir ++ [name]) with
      | some _ => .error .alreadyExists
      | none => .ok (dir ++ [name], tree.put (dir ++ [name]) (.file []))

/-- Open a file for writing, a new one or an old one cut to nothing. -/
def createOrTruncate (tree : FileTree) (path : FilePath) :
    Except IoError (Location × FileTree) :=
  match tree.resolve (.write true) path with
  | .error error => .error error
  | .ok (.self _, _) => .error .isDirectory
  | .ok (.child dir name, _) =>
      match tree.entryAt (dir ++ [name]) with
      | some .directory => .error .isDirectory
      | _ => .ok (dir ++ [name], tree.put (dir ++ [name]) (.file []))

/-- Make a link to a target, which need not be there. Unlike a directory, a link is refused
where the path ends in a slash. -/
def makeLink (tree : FileTree) (path : FilePath) (target : String) :
    Except IoError FileTree :=
  if '\x00' ∈ target.toList then .error .nulInPath
  else if target = "" then .error .notFound
  else if maxPathBytes ≤ target.utf8ByteSize then .error .nameTooLong
  else
    match tree.resolve .name path with
    | .error error => .error error
    | .ok (.self _, _) => .error .alreadyExists
    | .ok (.child dir name, slash) =>
        match tree.entryAt (dir ++ [name]) with
        | some _ => .error .alreadyExists
        | none =>
            if slash then .error .notFound
            else .ok (tree.put (dir ++ [name]) (.link target))

/-- Remove the file or the link that a path names. A path that names neither changes
nothing. -/
def removeFile (tree : FileTree) (path : FilePath) : FileTree :=
  match tree.resolve (.write false) path with
  | .ok (.child dir name, _) =>
      match tree.entryAt (dir ++ [name]) with
      | some (.file _) => tree.erase (dir ++ [name])
      | some (.link _) => tree.erase (dir ++ [name])
      | _ => tree
  | _ => tree

end FileTree

end MediaMigration
