import MediaMigration.FileTree.Change

/-!
# Laying out a tree

A tree is set up entry by entry, each put where its path leads among those before it, with
the directories above it. What lies below the working directory is read off again as a list
of paths in byte order.
-/

namespace MediaMigration

namespace FileTree

def withWorkDir (workDir : Location) : FileTree :=
  let entries : Std.ExtTreeMap Location Entry :=
    (List.range workDir.length).foldl
      (fun entries depth => entries.insert (workDir.take (depth + 1)) .directory) ∅
  ⟨entries, workDir⟩

def makeParents (tree : FileTree) (path : FilePath) : Except IoError FileTree :=
  match tree.makeParent path with
  | (.error error, _) => .error error
  | (.ok (), tree) => .ok tree

/-- Put an entry where a path leads, after making the directories above it. A file takes the
place of one that is there, also behind a link, and a directory may be there already. -/
def plant (tree : FileTree) (path : FilePath) (entry : Entry) : Except IoError FileTree :=
  match tree.makeParents path with
  | .error error => .error error
  | .ok tree =>
      match entry with
      | .link target => tree.makeLink path target
      | .file content =>
          match tree.createOrTruncate path with
          | .error error => .error error
          | .ok (place, tree) => .ok (tree.put place (.file content))
      | .directory =>
          match tree.makeDirectoryPath path with
          | (.error error, _) => .error error
          | (.ok (), tree) => .ok tree

def layout (tree : FileTree) : List (String × Entry) :=
  ((tree.entriesBelow tree.workDir).map fun (place, entry) =>
    (FilePath.joinNames place, entry)).mergeSort fun a b => decide (a.1 ≤ b.1)

end FileTree

end MediaMigration
