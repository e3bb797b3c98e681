import Std.Data.ExtTreeMap

/-!
# File trees

A file tree gives to each location, a list of names from the root downwards, the regular
file, directory or symbolic link that is there. Two trees with the same entries are the
same tree. Relative paths are looked up from the working directory.
-/

namespace MediaMigration

abbrev Bytes := List UInt8

/-- The names that lead from the root to a place in a tree. -/
abbrev Location := List String

inductive Entry where
  | file (content : Bytes)
  | directory
  | link (target : String)
deriving DecidableEq, Repr

/-- A tree of files, and the directory that relative paths start from. -/
structure FileTree where
  entries : Std.ExtTreeMap Location Entry
  workDir : Location := []

namespace FileTree

def empty : FileTree :=
  ⟨∅, []⟩

/-- What is at a location. The root is always a directory. -/
def entryAt (tree : FileTree) (place : Location) : Option Entry :=
  if place = [] then some .directory else tree.entries[place]?

def file? (tree : FileTree) (place : Location) : Option Bytes :=
  match tree.entryAt place with
  | some (.file content) => some content
  | _ => none

def put (tree : FileTree) (place : Location) (entry : Entry) : FileTree :=
  { tree with entries := tree.entries.insert place entry }

def erase (tree : FileTree) (place : Location) : FileTree :=
  { tree with entries := tree.entries.erase place }

def toList (tree : FileTree) : List (Location × Entry) :=
  tree.entries.toList

/-- The location below `dir` that leads to `place`, if `place` lies strictly below. -/
def below? (dir place : Location) : Option Location :=
  if dir.isPrefixOf place ∧ dir.length < place.length then some (place.drop dir.length) else none

def entriesBelow (tree : FileTree) (dir : Location) : List (Location × Entry) :=
  tree.toList.filterMap fun (place, entry) => (below? dir place).map fun rest => (rest, entry)

/-- The regular files at any depth below a directory, by their locations relative to it, in
component-wise byte order. Links are not followed. -/
def filesBelow (tree : FileTree) (dir : Location) : List Location :=
  (tree.entriesBelow dir).filterMap fun (place, entry) =>
    match entry with
    | .file _ => some place
    | _ => none

/-- The directories at any depth below a directory, by their locations relative to it, in
component-wise byte order: a directory comes before all that lies below it. -/
def directoriesBelow (tree : FileTree) (dir : Location) : List Location :=
  (tree.entriesBelow dir).filterMap fun (place, entry) =>
    match entry with
    | .directory => some place
    | _ => none

theorem ext {t u : FileTree} (hw : t.workDir = u.workDir)
    (h : ∀ place : Location, t.entries[place]? = u.entries[place]?) : t = u := by
  cases t
  cases u
  simp only at hw h
  subst hw
  congr
  exact Std.ExtTreeMap.ext_getElem? h

@[simp] theorem getElem?_put (tree : FileTree) (place other : Location) (entry : Entry) :
    (tree.put place entry).entries[other]? =
      if place = other then some entry else tree.entries[other]? := by
  simp [put, Std.ExtTreeMap.getElem?_insert]

@[simp] theorem getElem?_erase (tree : FileTree) (place other : Location) :
    (tree.erase place).entries[other]? = if place = other then none else tree.entries[other]? := by
  simp [erase, Std.ExtTreeMap.getElem?_erase]

theorem entryAt_put (tree : FileTree) {place : Location} (hp : place ≠ []) (other : Location)
    (entry : Entry) :
    (tree.put place entry).entryAt other = if place = other then some entry else tree.entryAt other := by
  unfold entryAt
  by_cases ho : other = []
  · subst ho
    simp [hp]
  · simp [ho]

theorem entryAt_erase (tree : FileTree) {place : Location} (hp : place ≠ []) (other : Location) :
    (tree.erase place).entryAt other = if place = other then none else tree.entryAt other := by
  unfold entryAt
  by_cases ho : other = []
  · subst ho
    simp [hp]
  · simp [ho]

end FileTree

end MediaMigration
