import MediaMigration.Text.Split

/-!
# Paths

A path is a text. Slashes part its segments; empty segments and inner `.` segments say
nothing, `..` is kept as it is, and a leading slash makes the path absolute. Taking the
components, the parent or the last name of a path, and joining two paths, work on the
text alone and look at no file.
-/

namespace MediaMigration

structure FilePath where
  text : String
deriving DecidableEq, Repr

inductive PathComponent where
  | root
  | here
  | up
  | name (text : String)
deriving DecidableEq, Repr

namespace FilePath

def isAbsolute (path : FilePath) : Bool :=
  path.text.toList.head? == some '/'

def segments (path : FilePath) : List String :=
  (Text.splitAt '/' path.text.toList).map String.ofList

def steps (path : FilePath) : List String :=
  path.segments.filter fun segment => segment != ""

def endsWithSlash (path : FilePath) : Bool :=
  path.text.toList.getLast? == some '/'

/-- A segment that says nothing when others come before it. -/
def isSilent (segment : String) : Bool :=
  segment == "" || segment == "."

def componentOf? (segment : String) : Option PathComponent :=
  if isSilent segment then none
  else if segment = ".." then some .up
  else some (.name segment)

/-- The components of a path. A `.` counts only at the start of a relative path. -/
def components (path : FilePath) : List PathComponent :=
  let named := path.segments.filterMap componentOf?
  if path.isAbsolute then .root :: named
  else if path.segments.head? = some "." then .here :: named
  else named

/-- Put one path behind another. An absolute path takes the place of the first, and only
one slash comes between the two. -/
def join (base next : FilePath) : FilePath :=
  if next.isAbsolute then next
  else if base.text = "" then next
  else if base.endsWithSlash then ⟨base.text ++ next.text⟩
  else ⟨base.text ++ "/" ++ next.text⟩

def below (dir : FilePath) (names : List String) : FilePath :=
  names.foldl (fun path name => path.join ⟨name⟩) dir

def dropSilentEnd (segments : List String) : List String :=
  (segments.reverse.dropWhile isSilent).reverse

def aboveLast? (segments : List String) : Option (List String) :=
  match dropSilentEnd segments with
  | [] => none
  | first :: rest => some (dropSilentEnd (first :: rest).dropLast)

def joinSegments (segments : List String) : String :=
  "/".intercalate segments

/-- The path without its last component. The root and the empty path have no parent. -/
def parent? (path : FilePath) : Option FilePath :=
  match path.isAbsolute, path.segments with
  | true, _ :: rest => (aboveLast? rest).map fun above => ⟨"/" ++ joinSegments above⟩
  | false, "." :: rest =>
      match aboveLast? rest with
      | none => some ⟨""⟩
      | some [] => some ⟨"."⟩
      | some above => some ⟨"./" ++ joinSegments above⟩
  | _, segments => (aboveLast? segments).map fun above => ⟨joinSegments above⟩

def fileName? (path : FilePath) : Option String :=
  match path.components.getLast? with
  | some (.name name) => some name
  | _ => none

def ancestorsWithin : Nat → FilePath → List FilePath
  | 0, path => [path]
  | fuel + 1, path =>
      match path.parent? with
      | none => [path]
      | some above => path :: ancestorsWithin fuel above

def ancestors (path : FilePath) : List FilePath :=
  ancestorsWithin path.text.length path

def joinNames (names : List String) : String :=
  "/".intercalate names

end FilePath

end MediaMigration
