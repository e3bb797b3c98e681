import MediaMigration.Proofs.FileTree.Confinement
import MediaMigration.Proofs.FileTree.PlainWalk

/-!
# Making a way

The directories of a path are made from the last one upwards, as far as something is missing, and
then down again. If the path goes up from directories only, this is the same as going along
its moves from the start and making each directory that is missing. So what is made, and where that
fails, can be followed move by move, and in the end the whole path can be gone.
-/

namespace MediaMigration

namespace FileTree

open FilePath

/-- Make the directory at the end of moves; those on the way to it must be there. -/
def makeLast (tree : FileTree) : Location → List String → Except IoError FileTree
  | _, [] => .ok tree
  | dir, move :: rest =>
      if move = ".." then tree.makeLast dir.dropLast rest
      else if maxNameBytes < move.utf8ByteSize then .error .nameTooLong
      else
        match tree.entryAt (dir ++ [move]) with
        | some .directory => tree.makeLast (dir ++ [move]) rest
        | none => if rest = [] then .ok (tree.put (dir ++ [move]) .directory) else .error .notFound
        | some _ => .error (if rest = [] then .alreadyExists else .notDirectory)

def makeWay : FileTree → Location → List String → Except IoError Unit × FileTree
  | tree, _, [] => (.ok (), tree)
  | tree, dir, move :: rest =>
      if move = ".." then makeWay tree dir.dropLast rest
      else if maxNameBytes < move.utf8ByteSize then (.error .nameTooLong, tree)
      else
        match tree.entryAt (dir ++ [move]) with
        | some .directory => makeWay tree (dir ++ [move]) rest
        | none => makeWay (tree.put (dir ++ [move]) .directory) (dir ++ [move]) rest
        | some _ => (.error (if rest = [] then .alreadyExists else .notDirectory), tree)

variable {tree : FileTree} {dir : Location} {path : FilePath}

/-! ## One move after the other -/

section Moves

variable {move : String} (rest : List String)

theorem makeLast_cons (tree : FileTree) (dir : Location) (move : String) :
    tree.makeLast dir (move :: rest) =
      if move = ".." then tree.makeLast dir.dropLast rest
      else if maxNameBytes < move.utf8ByteSize then .error .nameTooLong
      else
        match tree.entryAt (dir ++ [move]) with
        | some .directory => tree.makeLast (dir ++ [move]) rest
        | none => if rest = [] then .ok (tree.put (dir ++ [move]) .directory) else .error .notFound
        | some _ => .error (if rest = [] then .alreadyExists else .notDirectory) :=
  rfl

theorem makeWay_cons (tree : FileTree) (dir : Location) (move : String) :
    tree.makeWay dir (move :: rest) =
      if move = ".." then tree.makeWay dir.dropLast rest
      else if maxNameBytes < move.utf8ByteSize then (.error .nameTooLong, tree)
      else
        match tree.entryAt (dir ++ [move]) with
        | some .directory => tree.makeWay (dir ++ [move]) rest
        | none => (tree.put (dir ++ [move]) .directory).makeWay (dir ++ [move]) rest
        | some _ => (.error (if rest = [] then .alreadyExists else .notDirectory), tree) :=
  rfl

@[simp] theorem makeLast_up :
    tree.makeLast dir (".." :: rest) = tree.makeLast dir.dropLast rest := by
  rw [makeLast_cons, if_pos rfl]

@[simp] theorem makeWay_up : tree.makeWay dir (".." :: rest) = tree.makeWay dir.dropLast rest := by
  rw [makeWay_cons, if_pos rfl]

theorem makeLast_long (hmove : move ≠ "..") (hlong : maxNameBytes < move.utf8ByteSize) :
    tree.makeLast dir (move :: rest) = .error .nameTooLong := by
  rw [makeLast_cons, if_neg hmove, if_pos hlong]

theorem makeWay_long (hmove : move ≠ "..") (hlong : maxNameBytes < move.utf8ByteSize) :
    tree.makeWay dir (move :: rest) = (.error .nameTooLong, tree) := by
  rw [makeWay_cons, if_neg hmove, if_pos hlong]

theorem makeLast_enter (hmove : move ≠ "..") (hshort : ¬ maxNameBytes < move.utf8ByteSize)
    (hentry : tree.entryAt (dir ++ [move]) = some .directory) :
    tree.makeLast dir (move :: rest) = tree.makeLast (dir ++ [move]) rest := by
  rw [makeLast_cons, if_neg hmove, if_neg hshort, hentry]

theorem makeWay_enter (hmove : move ≠ "..") (hshort : ¬ maxNameBytes < move.utf8ByteSize)
    (hentry : tree.entryAt (dir ++ [move]) = some .directory) :
    tree.makeWay dir (move :: rest) = tree.makeWay (dir ++ [move]) rest := by
  rw [makeWay_cons, if_neg hmove, if_neg hshort, hentry]

theorem makeLast_missing (hmove : move ≠ "..") (hshort : ¬ maxNameBytes < move.utf8ByteSize)
    (hentry : tree.entryAt (dir ++ [move]) = none) :
    tree.makeLast dir (move :: rest) =
      if rest = [] then .ok (tree.put (dir ++ [move]) .directory) else .error .notFound := by
  rw [makeLast_cons, if_neg hmove, if_neg hshort, hentry]

theorem makeWay_missing (hmove : move ≠ "..") (hshort : ¬ maxNameBytes < move.utf8ByteSize)
    (hentry : tree.entryAt (dir ++ [move]) = none) :
    tree.makeWay dir (move :: rest) =
      (tree.put (dir ++ [move]) .directory).makeWay (dir ++ [move]) rest := by
  rw [makeWay_cons, if_neg hmove, if_neg hshort, hentry]

theorem makeLast_blocked (hmove : move ≠ "..") (hshort : ¬ maxNameBytes < move.utf8ByteSize)
    {content : Bytes} (hentry : tree.entryAt (dir ++ [move]) = some (.file content)) :
    tree.makeLast dir (move :: rest) =
      .error (if rest = [] then .alreadyExists else .notDirectory) := by
  rw [makeLast_cons, if_neg hmove, if_neg hshort, hentry]

theorem makeWay_blocked (hmove : move ≠ "..") (hshort : ¬ maxNameBytes < move.utf8ByteSize)
    {content : Bytes} (hentry : tree.entryAt (dir ++ [move]) = some (.file content)) :
    tree.makeWay dir (move :: rest) =
      (.error (if rest = [] then .alreadyExists else .notDirectory), tree) := by
  rw [makeWay_cons, if_neg hmove, if_neg hshort, hentry]

end Moves

theorem makeWay_adds (tree : FileTree) (dir : Location) (moves : List String) :
    OnlyDirectoriesAdded tree (tree.makeWay dir moves).2 := by
  induction moves generalizing tree dir with
  | nil => exact .refl tree
  | cons move rest ih =>
      rw [makeWay_cons]
      split
      · exact ih tree dir.dropLast
      · split
        · exact .refl tree
        · split
          · exact ih tree (dir ++ [move])
          · next hfree => exact (onlyDirectoriesAdded_put hfree).trans (ih _ _)
          · exact .refl tree

/-- A segment that moves a look-up, by name or upwards. -/
structure IsMove (move : String) : Prop where
  not_empty : move ≠ ""
  not_here : move ≠ "."
  no_slash : '/' ∉ move.toList

theorem isMove_of_mem_moves {move : String} (h : move ∈ path.moves) : IsMove move := by
  obtain ⟨hsegment, hspeaks⟩ := List.mem_filter.mp h
  simp only [isSilent, Bool.not_eq_true', Bool.or_eq_false_iff, beq_eq_false_iff_ne] at hspeaks
  exact ⟨hspeaks.1, hspeaks.2, no_slash_of_mem_segments hsegment⟩

theorem IsPlain.put_move (h : tree.IsPlain) (hdir : tree.entryAt dir = some .directory)
    {move : String} (hmove : IsMove move) (hup : move ≠ "..")
    (hshort : ¬ maxNameBytes < move.utf8ByteSize) (hfree : tree.entryAt (dir ++ [move]) = none) :
    (tree.put (dir ++ [move]) .directory).IsPlain :=
  isPlain_lasts.put h hdir
    ⟨hmove.not_empty, ⟨hmove.not_here, hup⟩, hmove.no_slash, Nat.not_lt.mp hshort⟩
    (by simp [hfree]) (by simp)

/-! ## The last directory, and the way to it when that is missing -/

/-- Make the last directory of moves and tell what came of it, with the tree as it is then. -/
def makeEnd (tree : FileTree) (dir : Location) (moves : List String) :
    Except IoError Unit × FileTree :=
  match tree.makeLast dir moves with
  | .ok made => (.ok (), made)
  | .error error => (.error error, tree)

/-- Make the last directory of moves; where something is missing on the way to it, do so in the
tree that the way was made in. -/
def makeEndAfter (tree : FileTree) (dir : Location) (moves : List String)
    (way : Except IoError Unit × FileTree) : Except IoError Unit × FileTree :=
  match tree.makeLast dir moves with
  | .error .notFound =>
      match way with
      | (.error error, made) => (.error error, made)
      | (.ok (), made) => made.makeEnd dir moves
  | _ => tree.makeEnd dir moves

section End

variable {moves : List String}

theorem makeEnd_ok {made : FileTree} (h : tree.makeLast dir moves = .ok made) :
    tree.makeEnd dir moves = (.ok (), made) := by
  rw [makeEnd, h]

theorem makeEnd_error {error : IoError} (h : tree.makeLast dir moves = .error error) :
    tree.makeEnd dir moves = (.error error, tree) := by
  rw [makeEnd, h]

theorem makeEndAfter_missing (h : tree.makeLast dir moves = .error .notFound)
    (way : Except IoError Unit × FileTree) :
    tree.makeEndAfter dir moves way =
      match way with
      | (.error error, made) => (.error error, made)
      | (.ok (), made) => made.makeEnd dir moves := by
  simp only [makeEndAfter, h]

theorem makeEndAfter_of_ne (h : tree.makeLast dir moves ≠ .error .notFound)
    (way : Except IoError Unit × FileTree) :
    tree.makeEndAfter dir moves way = tree.makeEnd dir moves := by
  unfold makeEndAfter
  split
  · next hmissing => exact absurd hmissing h
  · rfl

@[simp] theorem makeEndAfter_self (tree : FileTree) (dir : Location) (moves : List String) :
    tree.makeEndAfter dir moves (.ok (), tree) = tree.makeEnd dir moves := by
  by_cases h : tree.makeLast dir moves = .error .notFound
  · rw [makeEndAfter_missing h]
  · rw [makeEndAfter_of_ne h]

@[simp] theorem makeEndAfter_up (way : Except IoError Unit × FileTree) :
    tree.makeEndAfter dir (".." :: moves) way = tree.makeEndAfter dir.dropLast moves way := by
  simp only [makeEndAfter, makeEnd, makeLast_up]

@[simp] theorem makeWay_singleton (tree : FileTree) (dir : Location) (last : String) :
    tree.makeWay dir [last] = tree.makeEnd dir [last] := by
  rw [makeEnd, makeLast_cons, makeWay_cons]
  split
  · rfl
  · split
    · rfl
    · split <;> rfl

/-- Behind a directory that is new, the last one of more than one move is missed, unless the way to
it fails at once for the same reason. -/
theorem IsPlain.makeLast_new (h : tree.IsPlain) {move : String} {rest : List String}
    (last : String)
    (hups : tree.UpsExist (dir ++ [move]) (rest ++ [last]))
    (hentry : tree.entryAt (dir ++ [move]) = none) (hrest : rest ≠ []) :
    let first := tree.put (dir ++ [move]) .directory
    first.makeLast (dir ++ [move]) (rest ++ [last]) = .error .notFound ∨
      ∃ error, error ≠ .notFound ∧
        first.makeLast (dir ++ [move]) (rest ++ [last]) = .error error ∧
        first.makeWay (dir ++ [move]) rest = (.error error, first) := by
  cases rest with
  | nil => exact absurd rfl hrest
  | cons next others =>
      rw [List.cons_append] at hups ⊢
      have hdown := h.toIsWellFormed.not_up_of_missing hups hentry
      rw [List.mem_cons, not_or] at hdown
      have hnext : next ≠ ".." := Ne.symm hdown.1
      by_cases hlong : maxNameBytes < next.utf8ByteSize
      · exact .inr ⟨.nameTooLong, by simp, makeLast_long _ hnext hlong, makeWay_long _ hnext hlong⟩
      · have hfree := h.toIsWellFormed.missing_below_put hentry (List.cons_ne_nil next [])
          .directory
        have hothers : others ++ [last] ≠ [] := by simp
        exact .inl ((makeLast_missing _ hnext hlong hfree).trans (if_neg hothers))

variable {move : String} (hup : move ≠ "..") (hshort : ¬ maxNameBytes < move.utf8ByteSize)
include hup hshort

theorem makeEnd_enter (hentry : tree.entryAt (dir ++ [move]) = some .directory)
    (more : List String) :
    tree.makeEnd dir (move :: more) = tree.makeEnd (dir ++ [move]) more := by
  rw [makeEnd, makeEnd, makeLast_enter more hup hshort hentry]

/-- What is a directory stays one while a way behind it is made, so that it is entered after that
too. -/
theorem makeEnd_behind (hentry : tree.entryAt (dir ++ [move]) = some .directory)
    (rest more : List String) {made : FileTree} {result : Except IoError Unit}
    (hway : tree.makeWay (dir ++ [move]) rest = (result, made)) :
    made.makeEnd dir (move :: more) = made.makeEnd (dir ++ [move]) more := by
  have hkept := (makeWay_adds tree (dir ++ [move]) rest).directory_kept _ hentry
  rw [hway] at hkept
  exact makeEnd_enter hup hshort hkept more

theorem makeEndAfter_enter (hentry : tree.entryAt (dir ++ [move]) = some .directory)
    (rest more : List String) :
    tree.makeEndAfter dir (move :: more) (tree.makeWay (dir ++ [move]) rest) =
      tree.makeEndAfter (dir ++ [move]) more (tree.makeWay (dir ++ [move]) rest) := by
  have hsame := makeLast_enter more hup hshort hentry
  by_cases hmissing : tree.makeLast (dir ++ [move]) more = .error .notFound
  · rw [makeEndAfter_missing (hsame.trans hmissing), makeEndAfter_missing hmissing]
    split
    · rfl
    · next hway => exact makeEnd_behind hup hshort hentry rest more hway
  · rw [makeEndAfter_of_ne (hsame ▸ hmissing), makeEndAfter_of_ne hmissing]
    exact makeEnd_enter hup hshort hentry more

/-- Where a directory is new, the last one behind it is made after the way to that as if it had
been there before. -/
theorem IsPlain.makeEndAfter_new (h : tree.IsPlain) {rest : List String} (last : String)
    (hups : tree.UpsExist (dir ++ [move]) (rest ++ [last]))
    (hentry : tree.entryAt (dir ++ [move]) = none) :
    let first := tree.put (dir ++ [move]) .directory
    tree.makeEndAfter dir (move :: (rest ++ [last])) (first.makeWay (dir ++ [move]) rest) =
      first.makeEndAfter (dir ++ [move]) (rest ++ [last])
        (first.makeWay (dir ++ [move]) rest) := by
  intro first
  have hmade : first.entryAt (dir ++ [move]) = some .directory :=
    entryAt_put_of_free hentry .directory
  have hmore : rest ++ [last] ≠ [] := by simp
  have hmissed := (makeLast_missing _ hup hshort hentry).trans (if_neg hmore)
  rw [makeEndAfter_missing hmissed]
  by_cases hrest : rest = []
  · subst hrest
    rw [makeWay, makeEndAfter_self]
    exact makeEnd_enter hup hshort hmade _
  · rcases h.makeLast_new last hups hentry hrest with
      hmissing | ⟨error, hne, hlast, hway⟩
    · rw [makeEndAfter_missing hmissing]
      split
      · rfl
      · next hway => exact makeEnd_behind hup hshort hmade rest _ hway
    · have hother : first.makeLast (dir ++ [move]) (rest ++ [last]) ≠ .error .notFound := by
        rw [hlast]
        simpa using hne
      rw [makeEndAfter_of_ne hother, makeEnd_error hlast, hway]

end End

/-- The way to the last of some moves is made by making that one, and if anything is missing on
the way, by making the way to the others first. -/
theorem IsPlain.makeWay_concat {moves : List String} {last : String} (h : tree.IsPlain)
    (hdir : tree.entryAt dir = some .directory) (hmoves : ∀ move ∈ moves ++ [last], IsMove move)
    (hups : tree.UpsExist dir (moves ++ [last])) :
    tree.makeWay dir (moves ++ [last]) =
      tree.makeEndAfter dir (moves ++ [last]) (tree.makeWay dir moves) := by
  induction moves generalizing tree dir with
  | nil =>
      rw [List.nil_append, makeWay_singleton, makeWay, makeEndAfter_self]
  | cons move rest ih =>
      rw [List.cons_append] at hmoves hups ⊢
      rw [UpsExist, if_neg (hmoves move List.mem_cons_self).not_here] at hups
      have hrest : ∀ move ∈ rest ++ [last], IsMove move :=
        fun other hother => hmoves other (List.mem_cons_of_mem _ hother)
      have hmore : rest ++ [last] ≠ [] := by simp
      by_cases hup : move = ".."
      · subst hup
        rw [if_pos rfl] at hups
        rw [makeWay_up, makeWay_up, makeEndAfter_up]
        exact ih h (h.toIsWellFormed.directory_dropLast hdir) hrest hups.2
      · rw [if_neg hup] at hups
        by_cases hlong : maxNameBytes < move.utf8ByteSize
        · have hlast : tree.makeLast dir (move :: (rest ++ [last])) = .error .nameTooLong :=
            makeLast_long _ hup hlong
          rw [makeWay_long _ hup hlong, makeEndAfter_of_ne (by simp [hlast]), makeEnd_error hlast]
        · cases hentry : tree.entryAt (dir ++ [move]) with
          | none =>
              have hplain := h.put_move hdir (hmoves move List.mem_cons_self) hup hlong hentry
              rw [makeWay_missing _ hup hlong hentry, makeWay_missing _ hup hlong hentry,
                h.makeEndAfter_new hup hlong last hups hentry]
              exact ih hplain (entryAt_put_of_free hentry .directory) hrest
                (hups.kept (onlyDirectoriesAdded_put hentry).directory_kept)
          | some entry =>
              cases entry with
              | link target => exact absurd hentry (h.no_link _ target)
              | file content =>
                  have hlast := (makeLast_blocked _ hup hlong hentry).trans
                    (congrArg Except.error (if_neg hmore))
                  rw [makeWay_blocked _ hup hlong hentry, if_neg hmore,
                    makeEndAfter_of_ne (by simp [hlast]), makeEnd_error hlast]
              | directory =>
                  rw [makeWay_enter _ hup hlong hentry, makeWay_enter _ hup hlong hentry,
                    makeEndAfter_enter hup hlong hentry]
                  exact ih h hentry hrest hups

/-! ## Paths instead of moves -/

theorem IsPlain.makeLast_cases (h : tree.IsPlain) {moves : List String}
    (hdir : tree.entryAt dir = some .directory) (hmoves : ∀ move ∈ moves, IsMove move) :
    (∃ error, tree.walk dir moves = .error error ∧ tree.makeLast dir moves = .error error) ∨
      (∃ place, tree.walk dir moves = .ok (.arrived (.self place)) ∧
        tree.makeLast dir moves = .ok tree) ∨
      ∃ parent name, tree.walk dir moves = .ok (.arrived (.child parent name)) ∧
        name ≠ ".." ∧ tree.makeLast dir moves = tree.makeLast parent [name] := by
  induction moves generalizing dir with
  | nil => exact .inr (.inl ⟨dir, (Walks.stop hdir).walk_eq, rfl⟩)
  | cons move rest ih =>
      have hfirst := hmoves move List.mem_cons_self
      have hothers : ∀ move ∈ rest, IsMove move :=
        fun other hother => hmoves other (List.mem_cons_of_mem _ hother)
      by_cases hup : move = ".."
      · rw [hup, walk_up hdir, makeLast_up]
        exact ih (h.toIsWellFormed.directory_dropLast hdir) hothers
      · have hstep : IsNameStep move := ⟨hfirst.not_here, hup⟩
        by_cases hrest : rest = []
        · subst hrest
          exact .inr (.inr ⟨dir, move, walk_last hdir hstep, hup, rfl⟩)
        · by_cases hlong : maxNameBytes < move.utf8ByteSize
          · rw [walk_long hdir hstep hrest hlong, makeLast_long rest hup hlong]
            exact .inl ⟨_, rfl, rfl⟩
          · rw [h.walk_name hdir hstep hrest hlong]
            cases hentry : tree.entryAt (dir ++ [move]) with
            | none =>
                left
                refine ⟨.notFound, walk_of_not_directory ?_ rest, ?_⟩
                · rw [requireDirectory, hentry]
                · rw [makeLast_missing rest hup hlong hentry, if_neg hrest]
            | some entry =>
                cases entry with
                | link target => exact absurd hentry (h.no_link _ target)
                | file content =>
                    left
                    refine ⟨.notDirectory, walk_of_not_directory ?_ rest, ?_⟩
                    · rw [requireDirectory, hentry]
                    · rw [makeLast_blocked rest hup hlong hentry, if_neg hrest]
                | directory =>
                    rw [makeLast_enter rest hup hlong hentry]
                    exact ih hentry hothers

theorem IsPlain.isDirectory_eq_walk (h : tree.IsPlain) (hpath : IsSearchable path) :
    tree.isDirectory path =
      match tree.walk (tree.startOf path) path.steps with
      | .ok (.arrived (.self _)) => true
      | .ok (.arrived (.child parent name)) =>
          decide (¬ maxNameBytes < name.utf8ByteSize ∧
            tree.entryAt (parent ++ [name]) = some .directory)
      | _ => false := by
  rw [isDirectory, lookUp, h.resolve_eq_walk hpath]
  cases hwalk : tree.walk (tree.startOf path) path.steps with
  | error error => rfl
  | ok halt =>
      cases halt with
      | atLink parent target rest => rfl
      | arrived spot =>
          cases spot with
          | self place => rfl
          | child parent name =>
              simp only [Purpose.refuses, Bool.false_eq_true, if_false]
              by_cases hlong : maxNameBytes < name.utf8ByteSize
              · simp [hlong]
              · rw [if_neg hlong]
                cases hentry : tree.entryAt (parent ++ [name]) with
                | none => simp [hentry]
                | some entry =>
                    cases entry with
                    | directory => simp [hentry, hlong]
                    | file content =>
                        simp only [hentry]
                        cases path.endsWithSlash <;> simp
                    | link target =>
                        simp only [hentry]
                        cases path.endsWithSlash <;> simp

/-- What making the directory of a path does, read off its moves. A directory that is there
already is as good as one that was made. -/
theorem IsPlain.makeDirectory_cases (h : tree.IsPlain) (hpath : IsSearchable path)
    (hend : path.EndsInMove) (hstart : tree.entryAt (tree.startOf path) = some .directory) :
    (∃ made, tree.makeLast (tree.startOf path) path.moves = .ok made ∧
        tree.makeDirectory path = .ok made) ∨
      (∃ error, tree.makeLast (tree.startOf path) path.moves = .ok tree ∧
        tree.makeDirectory path = .error error ∧ error ≠ .notFound ∧
        tree.isDirectory path = true) ∨
      ∃ error, tree.makeLast (tree.startOf path) path.moves = .error error ∧
        tree.makeDirectory path = .error error ∧ tree.isDirectory path = false := by
  have hsteps := h.walk_moves hend (tree.startOf path)
  have hmoves : ∀ move ∈ path.moves, IsMove move := fun _ hmove => isMove_of_mem_moves hmove
  rw [makeDirectory, h.resolve_eq_walk hpath, h.isDirectory_eq_walk hpath, ← hsteps]
  rcases h.makeLast_cases hstart hmoves with
    ⟨error, hwalk, hlast⟩ | ⟨place, hwalk, hlast⟩ | ⟨parent, name, hwalk, hup, hlast⟩
  · rw [hwalk, hlast]
    exact .inr (.inr ⟨error, rfl, rfl, rfl⟩)
  · rw [hwalk, hlast]
    exact .inr (.inl ⟨.alreadyExists, rfl, rfl, by simp, rfl⟩)
  · rw [hwalk, hlast]
    simp only [Purpose.refuses, Bool.false_eq_true, if_false]
    by_cases hlong : maxNameBytes < name.utf8ByteSize
    · rw [makeLast_long [] hup hlong, if_pos hlong]
      exact .inr (.inr ⟨_, rfl, rfl, by simp [hlong]⟩)
    · rw [if_neg hlong]
      simp only
      cases hentry : tree.entryAt (parent ++ [name]) with
      | none =>
          rw [makeLast_missing [] hup hlong hentry, if_pos rfl]
          exact .inl ⟨_, rfl, rfl⟩
      | some entry =>
          cases entry with
          | link target => exact absurd hentry (h.no_link _ target)
          | file content =>
              rw [makeLast_blocked [] hup hlong hentry, if_pos rfl]
              exact .inr (.inr ⟨_, rfl, rfl, by simp⟩)
          | directory =>
              rw [makeLast_enter [] hup hlong hentry, makeLast]
              exact .inr (.inl ⟨.alreadyExists, rfl, rfl, by simp, by simp [hlong]⟩)

theorem IsPlain.makeDirectories_cons (h : tree.IsPlain) (hpath : IsSearchable path)
    (hend : path.EndsInMove) (hstart : tree.entryAt (tree.startOf path) = some .directory)
    (above : List FilePath) :
    tree.makeDirectories (path :: above) =
      tree.makeEndAfter (tree.startOf path) path.moves (tree.makeDirectories above) := by
  rw [makeDirectories, if_neg hpath.not_empty]
  rcases h.makeDirectory_cases hpath hend hstart with
    ⟨made, hlast, hmade⟩ | ⟨error, hlast, hmade, hne, hthere⟩ | ⟨error, hlast, hmade, hthere⟩
  · rw [makeEndAfter_of_ne (by simp [hlast]), makeEnd_ok hlast, hmade]
  · rw [makeEndAfter_of_ne (by simp [hlast]), makeEnd_ok hlast, hmade]
    cases error <;> first | exact absurd rfl hne | simp [hthere]
  · rw [hmade]
    by_cases hmissing : error = .notFound
    · subst hmissing
      rw [makeEndAfter_missing hlast]
      have habove := isPlain_lasts.makeDirectories h above
      have hgrown := (makeDirectories_adds tree above).toKeptBy
      cases hothers : tree.makeDirectories above with
      | mk result between =>
          rw [hothers] at habove hgrown
          cases result with
          | error cause => rfl
          | ok _ =>
              have hsame := startOf_eq hgrown.workDir_eq path
              have hbetween := hgrown.directory_kept _ hstart
              rw [← hsame] at hbetween ⊢
              rcases habove.makeDirectory_cases hpath hend hbetween with
                ⟨made, hlast, hmade⟩ | ⟨error, hlast, hmade, _, hthere⟩ |
                  ⟨error, hlast, hmade, hthere⟩
              · simp only [makeEnd_ok hlast, hmade]
              · simp only [makeEnd_ok hlast, hmade, hthere, if_true]
              · simp [makeEnd_error hlast, hmade, hthere]
    · rw [makeEndAfter_of_ne (by simpa [hlast] using hmissing), makeEnd_error hlast]
      cases error <;> first | exact absurd rfl hmissing | simp [hthere]

theorem IsSearchable.parent (h : IsSearchable path) {above : FilePath}
    (hparent : path.parent? = some above) : above.text = "" ∨ IsSearchable above := by
  by_cases hempty : above.text = ""
  · exact .inl hempty
  · obtain ⟨rest, htext⟩ := parent?_text hparent
    have hnul := h.no_nul
    have hshort := h.short
    rw [htext, String.toList_append, List.mem_append, not_or] at hnul
    rw [htext, String.utf8ByteSize_append] at hshort
    exact .inr ⟨hnul.1, hempty, by omega⟩

theorem ancestorsWithin_head (fuel : Nat) (path : FilePath) :
    ∃ above, ancestorsWithin fuel path = path :: above := by
  cases fuel with
  | zero => exact ⟨[], rfl⟩
  | succ fuel =>
      rw [ancestorsWithin]
      cases path.parent? with
      | none => exact ⟨[], rfl⟩
      | some above => exact ⟨_, rfl⟩

theorem IsPlain.makeDirectories_of_moves_eq_nil (h : tree.IsPlain)
    (hpath : path.text = "" ∨ IsSearchable path)
    (hstart : tree.entryAt (tree.startOf path) = some .directory) (hmoves : path.moves = [])
    (fuel : Nat) : tree.makeDirectories (ancestorsWithin fuel path) = (.ok (), tree) := by
  obtain ⟨above, habove⟩ := ancestorsWithin_head fuel path
  rw [habove]
  rcases hpath with hempty | hpath
  · rw [makeDirectories, if_pos hempty]
  · have hlast : tree.makeLast (tree.startOf path) path.moves = .ok tree := by rw [hmoves, makeLast]
    rw [h.makeDirectories_cons hpath (.inl hmoves) hstart, makeEndAfter_of_ne (by simp [hlast]),
      makeEnd_ok hlast]

/-- To make a directory with all that are missing above it is to make the way along its moves. -/
theorem IsPlain.makeDirectories_eq_makeWay (h : tree.IsPlain) {fuel : Nat}
    (hpath : path.text = "" ∨ IsSearchable path) (hend : path.EndsInMove)
    (hstart : tree.entryAt (tree.startOf path) = some .directory)
    (hups : tree.UpsExist (tree.startOf path) path.moves) (hfuel : path.moves.length ≤ fuel) :
    tree.makeDirectories (ancestorsWithin fuel path) =
      tree.makeWay (tree.startOf path) path.moves := by
  induction fuel generalizing path with
  | zero =>
      have hmoves : path.moves = [] := List.length_eq_zero_iff.mp (Nat.le_zero.mp hfuel)
      rw [h.makeDirectories_of_moves_eq_nil hpath hstart hmoves, hmoves, makeWay]
  | succ fuel ih =>
      by_cases hmoves : path.moves = []
      · rw [h.makeDirectories_of_moves_eq_nil hpath hstart hmoves, hmoves, makeWay]
      · have hsearch : IsSearchable path := by
          refine hpath.resolve_left fun hempty => hmoves ?_
          obtain rfl : path = ⟨""⟩ := congrArg FilePath.mk hempty
          rfl
        cases hparent : path.parent? with
        | none => exact absurd (moves_of_parent?_eq_none hparent) hmoves
        | some above =>
            obtain ⟨haboveMoves, habsolute⟩ := parent?_eq_some hparent
            have hsame : tree.startOf above = tree.startOf path := by
              rw [startOf, startOf, habsolute]
            have hsplit := List.dropLast_concat_getLast hmoves
            have hmove : ∀ move ∈ path.moves.dropLast ++ [path.moves.getLast hmoves],
                IsMove move := by
              rw [hsplit]
              exact fun move hmem => isMove_of_mem_moves hmem
            have habove : tree.makeDirectories (ancestorsWithin fuel above) =
                tree.makeWay (tree.startOf path) path.moves.dropLast := by
              rw [← hsplit, upsExist_append] at hups
              rw [← hsame, ← haboveMoves] at hups ⊢
              apply ih (hsearch.parent hparent) (endsInMove_of_parent hparent)
                (hsame ▸ hstart) hups.1
              rw [haboveMoves, List.length_dropLast]
              omega
            have hways := h.makeWay_concat hstart hmove (hsplit.symm ▸ hups)
            rw [hsplit] at hways
            rw [ancestorsWithin, hparent, h.makeDirectories_cons hsearch hend hstart, habove, hways]

/-- To make the parent of a path is to make the way to it, if the parent can be looked at. -/
theorem IsPlain.makeParent_eq_makeWay (h : tree.IsPlain) {parent : FilePath}
    (hparent : path.parent? = some parent)
    (hsearch : parent.text = "" ∨ IsSearchable parent)
    (hups : tree.GoesUpFromDirectories path) :
    tree.makeParent path = tree.makeWay (tree.startOf path) path.moves.dropLast := by
  obtain ⟨hmoves, habsolute⟩ := parent?_eq_some hparent
  have hsame : tree.startOf parent = tree.startOf path := by
    rw [startOf, startOf, habsolute]
  rw [GoesUpFromDirectories, ← upsExist_filter, ← moves_eq_filter_steps, ← hsame] at hups
  have hparentUps : tree.UpsExist (tree.startOf parent) parent.moves := by
    obtain ⟨more, hmore⟩ := List.dropLast_prefix path.moves
    rw [← hmore, upsExist_append] at hups
    rw [hmoves]
    exact hups.1
  rw [makeParent, hparent, ← hsame, ← hmoves]
  exact h.makeDirectories_eq_makeWay hsearch (endsInMove_of_parent hparent)
    (h.startOf_directory parent) hparentUps (length_moves_le parent)

/-! ## Going the way that was made -/

theorem Walks.into {name : String} {rest : List String} {spot : Spot}
    (h : Walks tree (dir ++ [name]) rest (.arrived spot))
    (hend : tree.entryAt spot.place = some .directory)
    (hdir : tree.entryAt dir = some .directory) (hstep : IsNameStep name)
    (hshort : name.utf8ByteSize ≤ maxNameBytes) :
    ∃ spot, Walks tree dir (name :: rest) (.arrived spot) ∧
      tree.entryAt spot.place = some .directory := by
  by_cases hrest : rest = []
  · subst hrest
    exact ⟨.child dir name, .last hdir hstep, h.directory⟩
  · exact ⟨spot, .enter hdir hstep hshort hrest h, hend⟩

/-- Once the way is made it can be gone to its end. -/
theorem IsPlain.walks_of_makeWay (h : tree.IsPlain) {moves : List String}
    (hdir : tree.entryAt dir = some .directory) (hmoves : ∀ move ∈ moves, IsMove move)
    (hok : (tree.makeWay dir moves).1 = .ok ()) :
    ∃ spot, Walks (tree.makeWay dir moves).2 dir moves (.arrived spot) ∧
      (tree.makeWay dir moves).2.entryAt spot.place = some .directory := by
  induction moves generalizing tree dir with
  | nil => exact ⟨.self dir, .stop hdir, hdir⟩
  | cons move rest ih =>
      have hfirst := hmoves move List.mem_cons_self
      have hothers : ∀ move ∈ rest, IsMove move :=
        fun other hother => hmoves other (List.mem_cons_of_mem _ hother)
      have hkept := (makeWay_adds tree dir (move :: rest)).directory_kept _ hdir
      by_cases hup : move = ".."
      · subst hup
        rw [makeWay_up] at hok hkept ⊢
        obtain ⟨spot, hwalk, hend⟩ :=
          ih h (h.toIsWellFormed.directory_dropLast hdir) hothers hok
        exact ⟨spot, .up hkept hwalk, hend⟩
      · have hstep : IsNameStep move := ⟨hfirst.not_here, hup⟩
        by_cases hlong : maxNameBytes < move.utf8ByteSize
        · rw [makeWay_long rest hup hlong] at hok
          exact absurd hok (by simp)
        · have hshort := Nat.not_lt.mp hlong
          cases hentry : tree.entryAt (dir ++ [move]) with
          | none =>
              rw [makeWay_missing rest hup hlong hentry] at hok hkept ⊢
              obtain ⟨spot, hwalk, hend⟩ := ih (h.put_move hdir hfirst hup hlong hentry)
                (entryAt_put_of_free hentry .directory) hothers hok
              exact hwalk.into hend hkept hstep hshort
          | some entry =>
              cases entry with
              | link target => exact absurd hentry (h.no_link _ target)
              | file content =>
                  rw [makeWay_blocked rest hup hlong hentry] at hok
                  exact absurd hok (by simp)
              | directory =>
                  rw [makeWay_enter rest hup hlong hentry] at hok hkept ⊢
                  obtain ⟨spot, hwalk, hend⟩ := ih h hentry hothers hok
                  exact hwalk.into hend hkept hstep hshort

theorem IsPlain.walk_of_makeParent (h : tree.IsPlain) {parent : FilePath}
    (hparent : path.parent? = some parent) (hsearch : parent.text = "" ∨ IsSearchable parent)
    (hups : tree.GoesUpFromDirectories path) (hok : (tree.makeParent path).1 = .ok ())
    {more : List String} (hsteps : path.steps = parent.steps ++ more) (hmore : more ≠ []) :
    (tree.makeParent path).2.walk (tree.startOf path) path.steps =
      (tree.makeParent path).2.walk (tree.locationOf parent) more := by
  obtain ⟨hmoves, habsolute⟩ := parent?_eq_some hparent
  have hplain := isPlain_lasts.makeParent h path
  rw [h.makeParent_eq_makeWay hparent hsearch hups, ← hmoves] at hok hplain ⊢
  have hmove : ∀ move ∈ parent.moves, IsMove move := fun _ hmem => isMove_of_mem_moves hmem
  obtain ⟨spot, hwalk, hdirectory⟩ :=
    h.walks_of_makeWay (h.startOf_directory path) hmove hok
  have hplace : spot.place = tree.locationOf parent := by
    rw [hwalk.place_eq, locationOf_eq_follow_moves, startOf, startOf, habsolute]
  have hsteps' := hwalk.walk_eq
  rw [hplain.walk_moves (endsInMove_of_parent hparent)] at hsteps'
  rw [hsteps, ← hplace]
  apply (walks_of_walk_eq hsteps').walk_append _ hdirectory hmore
  rintro place name rfl
  exact (hplain.proper _ _ hdirectory name (by simp [Spot.place])).short

theorem makeParent_of_not_searchable {parent : FilePath} (hparent : path.parent? = some parent)
    (hne : parent.text ≠ "") (hsearch : ¬ IsSearchable parent) :
    ∃ error, ∀ tree : FileTree, tree.makeParent path = (.error error, tree) := by
  obtain ⟨above, habove⟩ := ancestorsWithin_head parent.text.length parent
  obtain ⟨error, hnotFound, herror⟩ := resolve_of_not_searchable hsearch
  have hmissing := hnotFound hne
  refine ⟨error, fun tree => ?_⟩
  have hmake : tree.makeDirectory parent = .error error := by
    rw [makeDirectory, herror]
  have hthere : tree.isDirectory parent = false := by
    rw [isDirectory, lookUp, herror]
  rw [makeParent, hparent]
  simp only [makeDirectoryPath, ancestors, habove]
  rw [makeDirectories, if_neg hne, hmake]
  cases error <;> first | exact absurd rfl hmissing | simp [hthere]

end FileTree

end MediaMigration
