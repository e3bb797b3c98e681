import MediaMigration.FileTree.Basic
import MediaMigration.FileTree.IoError
import MediaMigration.FileTree.Path

/-!
# Resolution of paths

A path is followed step by step from the root or the working directory. Every step needs a
directory to start from. A symbolic link on the way is replaced by the steps of its
target; at the last step that depends on what the path is resolved for. At most forty links
are followed. The result is a directory, or a name in a directory that may or may not be
taken.
-/

namespace MediaMigration

namespace FileTree

/-- Where a path leads: to a directory itself, or to a name in a directory. -/
inductive Spot where
  | self (dir : Location)
  | child (dir : Location) (name : String)
deriving DecidableEq, Repr

/-- Where the steps of a path come to a halt: at their end, or at a link on the way. -/
inductive Halt where
  | arrived (spot : Spot)
  | atLink (dir : Location) (target : String) (rest : List String)
deriving DecidableEq, Repr

/-- What a path is resolved for: to see what is there, to write a file there, or to give
its last name to a new directory or link. A link at the last step is followed on request. -/
inductive Purpose where
  | see (follow : Bool)
  | write (follow : Bool)
  | name
deriving DecidableEq, Repr

namespace Purpose

/-- Is a link at the last step followed? To see the directory that a slash at the end asks
for, it always is; a new entry never goes behind a link. -/
def follows (purpose : Purpose) (slash : Bool) : Bool :=
  match purpose with
  | see follow => follow || slash
  | write follow => follow
  | name => false

/-- Is the path refused because of a slash at its end? No file has such a path. -/
def refuses (purpose : Purpose) (slash : Bool) : Bool :=
  match purpose with
  | write _ => slash
  | _ => false

end Purpose

def maxLinks : Nat := 40

def maxNameBytes : Nat := 255

/-- Fewer bytes than this make up a path. -/
def maxPathBytes : Nat := 4096

def requireDirectory (tree : FileTree) (place : Location) : Except IoError Unit :=
  match tree.entryAt place with
  | none => .error .notFound
  | some .directory => .ok ()
  | some _ => .error .notDirectory

/-- Follow steps from a directory to their end or to the first link before it. The last
step is not looked up. -/
def walk (tree : FileTree) (dir : Location) : List String → Except IoError Halt
  | [] =>
      match tree.requireDirectory dir with
      | .error error => .error error
      | .ok () => .ok (.arrived (.self dir))
  | step :: rest =>
      match tree.requireDirectory dir with
      | .error error => .error error
      | .ok () =>
          if step = "." then tree.walk dir rest
          else if step = ".." then tree.walk dir.dropLast rest
          else
            match rest with
            | [] => .ok (.arrived (.child dir step))
            | next :: others =>
                if maxNameBytes < step.utf8ByteSize then .error .nameTooLong
                else
                  match tree.entryAt (dir ++ [step]) with
                  | none => .error .notFound
                  | some (.link target) => .ok (.atLink dir target (next :: others))
                  | some _ => tree.walk (dir ++ [step]) (next :: others)

/-- Follow steps to their end or to a link that has to be followed. The flag says whether
the path ends in a slash, which asks for a directory; a path that is refused for it is
refused whatever its last name. -/
def walkTo (tree : FileTree) (purpose : Purpose) (dir : Location) (steps : List String)
    (slash : Bool) : Except IoError Halt :=
  match tree.walk dir steps with
  | .ok (.arrived (.child parent name)) =>
      if purpose.refuses slash then .error .isDirectory
      else if maxNameBytes < name.utf8ByteSize then .error .nameTooLong
      else
        match tree.entryAt (parent ++ [name]) with
        | some (.link target) =>
            if purpose.follows slash then .ok (.atLink parent target [])
            else .ok (.arrived (.child parent name))
        | _ => .ok (.arrived (.child parent name))
  | halt => halt

/-- Where the steps lead when `links` links may be followed, and whether the last of them
came with a slash behind it. -/
def locate (tree : FileTree) (purpose : Purpose) (links : Nat) (dir : Location)
    (steps : List String) (slash : Bool) : Except IoError (Spot × Bool) :=
  match tree.walkTo purpose dir steps slash with
  | .error error => .error error
  | .ok (.arrived spot) => .ok (spot, slash)
  | .ok (.atLink parent target rest) =>
      match links with
      | 0 => .error .tooManyLinks
      | links + 1 =>
          let path : FilePath := ⟨target⟩
          if target = "" then .error .notFound
          else
            tree.locate purpose links (if path.isAbsolute then [] else parent)
              (path.steps ++ rest) (if rest = [] then slash || path.endsWithSlash else slash)

def resolve (tree : FileTree) (purpose : Purpose) (path : FilePath) :
    Except IoError (Spot × Bool) :=
  if '\x00' ∈ path.text.toList then .error .nulInPath
  else if path.text = "" then .error .notFound
  else if maxPathBytes ≤ path.text.utf8ByteSize then .error .nameTooLong
  else
    tree.locate purpose maxLinks (if path.isAbsolute then [] else tree.workDir) path.steps
      path.endsWithSlash

def Spot.place : Spot → Location
  | self dir => dir
  | child dir name => dir ++ [name]

/-- What a path leads to, with its location. A link at the end of the path is followed
if `follow` says so. -/
def lookUp (tree : FileTree) (follow : Bool) (path : FilePath) :
    Except IoError (Location × Entry) :=
  match tree.resolve (.see follow) path with
  | .error error => .error error
  | .ok (.self dir, _) => .ok (dir, .directory)
  | .ok (.child dir name, slash) =>
      match tree.entryAt (dir ++ [name]) with
      | none => .error .notFound
      | some .directory => .ok (dir ++ [name], .directory)
      | some entry => if slash then .error .notDirectory else .ok (dir ++ [name], entry)

def isDirectory (tree : FileTree) (path : FilePath) : Bool :=
  match tree.lookUp true path with
  | .ok (_, .directory) => true
  | _ => false

/-- Does a path lead anywhere? That nothing is there is an answer, any other failure is
not. -/
def exists? (tree : FileTree) (path : FilePath) : Except IoError Bool :=
  match tree.lookUp true path with
  | .ok _ => .ok true
  | .error .notFound => .ok false
  | .error error => .error error

def readText (tree : FileTree) (path : FilePath) : Except IoError String :=
  match tree.lookUp true path with
  | .error error => .error error
  | .ok (_, .file content) =>
      match String.fromUTF8? ⟨content.toArray⟩ with
      | some text => .ok text
      | none => .error .invalidText
  | .ok _ => .error .isDirectory

end FileTree

end MediaMigration
