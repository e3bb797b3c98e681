import MediaMigration.CommandLine.Command
import MediaMigration.FileTree.Layout

/-!
# The program

The part of the disk that a command leads to is read into a tree, the command runs on the
tree, and what it changed is written back. Symbolic links are read as links to where they
finally lead.
-/

namespace MediaMigration

namespace Disk

def pathOf (place : Location) :=
  System.mkFilePath ["/" ++ FilePath.joinNames place]

/-- What is at a place. A place that may not be looked at ends the program, before it has changed
anything. -/
def kindAt (place : Location) : IO (Option IO.FS.FileType) := do
  try
    return some (← (pathOf place).symlinkMetadata).type
  catch
    | error@(.permissionDenied ..) => throw error
    | _ => return none

/-- The content of a file. One that cannot be read ends the program in the same way. -/
def contentAt (place : Location) : IO Bytes := do
  return (← IO.FS.readBinFile (pathOf place)).toList

def targetAt (place : Location) : IO String := do
  try
    return (← IO.FS.realPath (pathOf place)).toString
  catch _ =>
    return ""

mutual

partial def readPlace (tree : FileTree) (place : Location) : IO FileTree := do
  match ← kindAt place with
  | some .dir =>
      let mut tree := tree.put place .directory
      for entry in ← (pathOf place).readDir do
        let below := place ++ [entry.fileName]
        if (tree.entryAt below).isNone then
          tree ← readPlace tree below
      return tree
  | some .file => return tree.put place (.file (← contentAt place))
  | some .symlink =>
      let target ← targetAt place
      readSteps (tree.put place (.link target)) [] (FilePath.steps ⟨target⟩)
  | some .other | none => return tree

partial def readSteps (tree : FileTree) (place : Location) : List String → IO FileTree
  | [] => if place.isEmpty then return tree else readPlace tree place
  | name :: rest => do
      if name == "." then readSteps tree place rest
      else if name == ".." then readSteps tree place.dropLast rest
      else
        let next := place ++ [name]
        match ← kindAt next with
        | some .dir =>
            let known := (tree.entryAt next).isSome
            readSteps (if known then tree else tree.put next .directory) next rest
        | some .symlink =>
            let target ← targetAt next
            readSteps (tree.put next (.link target)) [] (FilePath.steps ⟨target⟩ ++ rest)
        | some .file => return tree.put next (.file (← contentAt next))
        | some .other | none => return tree

end

def readPath (tree : FileTree) (path : FilePath) : IO FileTree :=
  readSteps tree (if path.isAbsolute then [] else tree.workDir) path.steps

def writeChanges (before after : FileTree) : IO Unit := do
  for (place, entry) in after.toList do
    if before.entryAt place ≠ some entry then
      match entry with
      | .directory => IO.FS.createDirAll (pathOf place)
      | .file content => IO.FS.writeBinFile (pathOf place) ⟨content.toArray⟩
      | .link _ => pure ()
  for (place, _) in before.toList do
    if (after.entryAt place).isNone then
      IO.FS.removeFile (pathOf place)

end Disk

def readVariables : IO (String → Option String) := do
  let root ← IO.getEnv Settings.storageRootVariable
  let overwrite ← IO.getEnv Settings.overwriteVariable
  return fun name =>
    if name = Settings.storageRootVariable then root
    else if name = Settings.overwriteVariable then overwrite
    else none

def readTree (command : CommandLine.Command) (lookUp : String → Option String) :
    IO FileTree := do
  let workDir := FilePath.steps ⟨(← IO.currentDir).toString⟩
  let tree ← command.documents.foldlM Disk.readPath (FileTree.withWorkDir workDir)
  match command.job? lookUp tree with
  | none => return tree
  | some job => job.paths.foldlM Disk.readPath tree

def report (output : CommandLine.Output) : IO UInt32 := do
  output.stdout.forM fun line => IO.println line
  output.stderr.forM fun line => IO.eprintln line
  return UInt32.ofNat output.exitCode

def runProgram (args : List String) : IO UInt32 := do
  match CommandLine.Command.ofArguments args with
  | .error halt => report halt.output
  | .ok command =>
      let lookUp ← readVariables
      let before ← readTree command lookUp
      let (output, after) := command.run lookUp before
      Disk.writeChanges before after
      report output

end MediaMigration

def main (args : List String) : IO UInt32 :=
  MediaMigration.runProgram args
