import MediaMigration.Proofs.FileTree.Failure
import MediaMigration.Proofs.Text.ByteOrder

/-!
# Traversals are depth-first searches

A traversal takes the entries below a directory from the whole tree, in the order of their
locations. Here it is told as the search that a system makes: a directory is opened by its path and
read, the names in it are put in the order of their bytes, and each is followed by all that lies
below it before the next one. The search ends at the first directory whose path is too long to be
opened. Both have the same outcome on every tree, since the entries below a directory are those of
its children and below them, child after child.
-/

namespace MediaMigration

namespace FileTree

variable {tree : FileTree} {path : FilePath} {dir names : Location} {todo : List Location}
  {outcome : Except IoError (List Location)}

/-- A depth-first search below a directory, which lies at `dir` and is opened by `path`. It has
some ways from there still to go, and finds files by theirs. A way that ends at a directory goes on to
all children of it, in the order of their names. -/
inductive Searches (tree : FileTree) (path : FilePath) (dir : Location) :
    List Location → Except IoError (List Location) → Prop
  | done : Searches tree path dir [] (.ok [])
  | file {names : Location} {content : Bytes} {rest : List Location}
      {outcome : Except IoError (List Location)}
      (there : tree.entryAt (dir ++ names) = some (.file content))
      (others : Searches tree path dir rest outcome) :
      Searches tree path dir (names :: rest) (outcome.map fun files => names :: files)
  | link {names : Location} {target : String} {rest : List Location}
      {outcome : Except IoError (List Location)}
      (there : tree.entryAt (dir ++ names) = some (.link target))
      (others : Searches tree path dir rest outcome) :
      Searches tree path dir (names :: rest) outcome
  | refused {names : Location} {rest : List Location}
      (there : tree.entryAt (dir ++ names) = some .directory)
      (long : maxPathBytes ≤ (path.below names).text.utf8ByteSize) :
      Searches tree path dir (names :: rest) (.error (.inTraversal (path.below names) .nameTooLong))
  | opened {names : Location} {children : List String} {rest : List Location}
      {outcome : Except IoError (List Location)}
      (there : tree.entryAt (dir ++ names) = some .directory)
      (short : (path.below names).text.utf8ByteSize < maxPathBytes)
      (listed : ∀ name, name ∈ children ↔ tree.entryAt (dir ++ names ++ [name]) ≠ none)
      (sorted : (children.map Text.bytesOf).Pairwise (· < ·))
      (others : Searches tree path dir (children.map (fun name => names ++ [name]) ++ rest) outcome) :
      Searches tree path dir (names :: rest) outcome

/-! ## Entries in order -/

@[simp] theorem compare_append_left (front first second : Location) :
    compare (front ++ first) (front ++ second) = compare first second := by
  induction front with
  | nil => rfl
  | cons name rest ih =>
      rw [List.compare_eq_compareLex] at ih ⊢
      rw [List.cons_append, List.cons_append, List.compareLex_cons_cons, ih]
      simp

theorem compare_append_self (front : Location) {rest : Location} (hrest : rest ≠ []) :
    compare front (front ++ rest) = .lt := by
  obtain ⟨name, others, rfl⟩ := List.exists_cons_of_ne_nil hrest
  have hfront := compare_append_left front [] (name :: others)
  rw [List.append_nil] at hfront
  rw [hfront]
  rfl

/-- Ways to different children are in the order of the children. -/
theorem compare_of_children {front first second : Location} {name other : String}
    (h : compare name other = .lt) :
    compare (front ++ [name] ++ first) (front ++ [other] ++ second) = .lt := by
  rw [List.append_assoc, List.append_assoc, compare_append_left, List.compare_eq_compareLex,
    List.cons_append, List.cons_append, List.compareLex_cons_cons, h]
  rfl

/-- Entries by increasing ways. -/
def Increasing (found : List (Location × Entry)) : Prop :=
  found.Pairwise fun first second => compare first.1 second.1 = .lt

theorem increasing_entriesBelow (tree : FileTree) (dir : Location) :
    Increasing (tree.entriesBelow dir) := by
  refine (tree.entriesBelow_ordered dir).imp ?_
  intro first second hless
  rwa [compare_append_left] at hless

theorem increasing_filesBelow (tree : FileTree) (dir : Location) :
    ((tree.filesBelow dir).map fun names => names.map Text.bytesOf).Pairwise (· < ·) := by
  rw [List.pairwise_map]
  refine (tree.filesBelow_ordered dir).imp ?_
  intro first second hless
  rw [compare_append_left] at hless
  exact Text.map_bytesOf_lt hless

def namesIn (tree : FileTree) (dir : Location) : List String :=
  (tree.entriesBelow dir).filterMap fun found =>
    match found.1 with
    | [name] => some name
    | _ => none

theorem mem_namesIn {name : String} :
    name ∈ tree.namesIn dir ↔ tree.entryAt (dir ++ [name]) ≠ none := by
  rw [entryAt, if_neg (by simp), Option.ne_none_iff_exists']
  simp only [namesIn, List.mem_filterMap, Prod.exists, mem_entriesBelow]
  constructor
  · rintro ⟨way, entry, ⟨-, hentry⟩, hname⟩
    split at hname
    · obtain rfl := Option.some.inj hname
      exact ⟨entry, hentry⟩
    · exact absurd hname (by simp)
  · rintro ⟨entry, hentry⟩
    exact ⟨[name], entry, ⟨List.cons_ne_nil name [], hentry⟩, rfl⟩

theorem namesIn_ordered (tree : FileTree) (dir : Location) :
    (tree.namesIn dir).Pairwise fun first second => compare first second = .lt := by
  refine List.Pairwise.filterMap _ ?_ (tree.increasing_entriesBelow dir)
  rintro ⟨way, entry⟩ ⟨other, otherEntry⟩ hless name hname second hsecond
  simp only at hname hsecond hless
  split at hname
  · split at hsecond
    · obtain rfl := Option.some.inj hname
      obtain rfl := Option.some.inj hsecond
      rw [List.compare_eq_compareLex, List.compareLex_cons_cons, Ordering.then_eq_lt] at hless
      rcases hless with hname | ⟨-, hrest⟩
      · exact hname
      · exact absurd hrest (by decide)
    · exact absurd hsecond (by simp)
  · exact absurd hname (by simp)

theorem eq_namesIn {children : List String}
    (hlisted : ∀ name, name ∈ children ↔ tree.entryAt (dir ++ [name]) ≠ none)
    (hsorted : (children.map Text.bytesOf).Pairwise (· < ·)) : children = tree.namesIn dir := by
  have hsingle : ∀ {names : List String},
      (names.Pairwise fun first second => compare first second = .lt) →
        names.Pairwise fun first second => compare [first] [second] = .lt := by
    intro names hordered
    refine hordered.imp ?_
    intro first second hless
    rw [List.compare_eq_compareLex, List.compareLex_cons_cons, hless]
    rfl
  have hchildren : children.Pairwise fun first second => compare first second = .lt := by
    rw [List.pairwise_map] at hsorted
    refine hsorted.imp ?_
    intro first second hless
    exact Text.compare_eq_lt_iff.mpr (Text.bytesOf_lt_iff.mp hless)
  refine eq_of_ordered (hsingle hchildren) (hsingle (tree.namesIn_ordered dir)) ?_
  intro name
  rw [hlisted, mem_namesIn]

theorem sorted_namesIn (tree : FileTree) (dir : Location) :
    ((tree.namesIn dir).map Text.bytesOf).Pairwise (· < ·) := by
  rw [List.pairwise_map]
  refine (tree.namesIn_ordered dir).imp ?_
  intro first second hless
  exact Text.bytesOf_lt (Text.compare_eq_lt_iff.mp hless)

/-! ## Entries child by child -/

/-- The entry that a way from a directory leads to, and all entries below it, by their ways from the
directory. -/
def entriesFrom (tree : FileTree) (dir names : Location) : List (Location × Entry) :=
  (tree.entryAt (dir ++ names)).toList.map (fun entry => (names, entry)) ++
    (tree.entriesBelow (dir ++ names)).map fun found => (names ++ found.1, found.2)

theorem mem_entriesFrom {way : Location} {entry : Entry} :
    (way, entry) ∈ tree.entriesFrom dir names ↔
      names <+: way ∧ tree.entryAt (dir ++ way) = some entry := by
  simp only [entriesFrom, List.mem_append, List.mem_map, Option.mem_toList, Prod.exists,
    Prod.mk.injEq, mem_entriesBelow]
  constructor
  · rintro (⟨found, hfound, rfl, rfl⟩ | ⟨rest, found, ⟨hne, hfound⟩, rfl, rfl⟩)
    · exact ⟨List.prefix_refl _, hfound⟩
    · refine ⟨List.prefix_append _ _, ?_⟩
      rw [entryAt, if_neg (by simp [hne]), ← List.append_assoc]
      exact hfound
  · rintro ⟨⟨rest, rfl⟩, hentry⟩
    by_cases hrest : rest = []
    · subst hrest
      rw [List.append_nil] at hentry
      exact .inl ⟨entry, hentry, (List.append_nil names).symm, rfl⟩
    · rw [entryAt, if_neg (by simp [hrest]), ← List.append_assoc] at hentry
      exact .inr ⟨rest, entry, ⟨hrest, hentry⟩, rfl, rfl⟩

theorem increasing_entriesFrom (tree : FileTree) (dir names : Location) :
    Increasing (tree.entriesFrom dir names) := by
  rw [Increasing, entriesFrom, List.pairwise_append]
  refine ⟨?_, ?_, ?_⟩
  · cases tree.entryAt (dir ++ names) <;> simp
  · rw [List.pairwise_map]
    refine (tree.increasing_entriesBelow (dir ++ names)).imp ?_
    intro first second hless
    rwa [compare_append_left]
  · intro first hfirst second hsecond
    obtain ⟨entry, -, rfl⟩ := List.mem_map.mp hfirst
    obtain ⟨⟨rest, other⟩, hmem, rfl⟩ := List.mem_map.mp hsecond
    exact compare_append_self names (mem_entriesBelow.mp hmem).1

/-- From a directory the entries are itself, and then those from its children, one child after the
other. -/
theorem entriesFrom_directory (h : tree.IsWellFormed)
    (hdirectory : tree.entryAt (dir ++ names) = some .directory) :
    tree.entriesFrom dir names =
      (names, .directory) ::
        (tree.namesIn (dir ++ names)).flatMap fun name => tree.entriesFrom dir (names ++ [name]) := by
  refine eq_of_ordered (tree.increasing_entriesFrom dir names) ?_ ?_
  · rw [List.pairwise_cons, List.pairwise_flatMap]
    refine ⟨?_, fun name _ => tree.increasing_entriesFrom dir _, ?_⟩
    · rintro ⟨way, entry⟩ hmem
      obtain ⟨name, -, hfrom⟩ := List.mem_flatMap.mp hmem
      obtain ⟨⟨rest, rfl⟩, -⟩ := mem_entriesFrom.mp hfrom
      rw [List.append_assoc]
      exact compare_append_self names (by simp)
    · refine (tree.namesIn_ordered (dir ++ names)).imp ?_
      rintro name other hless ⟨way, entry⟩ hmem ⟨second, otherEntry⟩ hsecond
      obtain ⟨⟨rest, rfl⟩, -⟩ := mem_entriesFrom.mp hmem
      obtain ⟨⟨others, rfl⟩, -⟩ := mem_entriesFrom.mp hsecond
      exact compare_of_children hless
  · rintro ⟨way, entry⟩
    simp only [List.mem_cons, List.mem_flatMap, mem_entriesFrom, mem_namesIn, Prod.mk.injEq]
    constructor
    · rintro ⟨⟨rest, rfl⟩, hentry⟩
      cases rest with
      | nil =>
          rw [List.append_nil, hdirectory] at hentry
          exact .inl ⟨List.append_nil names, (Option.some.inj hentry).symm⟩
      | cons name others =>
          refine .inr ⟨name, ?_, ⟨others, by simp⟩, hentry⟩
          -- the child is there, since something is at it or below it
          by_cases hothers : others = []
          · rw [hothers, ← List.append_assoc] at hentry
            rw [hentry]
            exact Option.some_ne_none entry
          · have hthere : tree.entryAt (dir ++ (names ++ name :: others)) ≠ none := by
              simp [hentry]
            have hchild := h.directory_of_prefix hthere
              (show dir ++ names ++ [name] <+: dir ++ (names ++ name :: others) from
                ⟨others, by simp⟩) (by simp [hothers])
            rw [hchild]
            exact Option.some_ne_none _
    · rintro (⟨rfl, rfl⟩ | ⟨name, -, hprefix, hentry⟩)
      · exact ⟨List.prefix_refl _, hdirectory⟩
      · exact ⟨(List.prefix_append names [name]).trans hprefix, hentry⟩

theorem entriesFrom_other (h : tree.IsWellFormed) {entry : Entry}
    (hentry : tree.entryAt (dir ++ names) = some entry) (hother : entry ≠ .directory) :
    tree.entriesFrom dir names = [(names, entry)] := by
  refine eq_of_ordered (tree.increasing_entriesFrom dir names) (List.pairwise_singleton _ _) ?_
  rintro ⟨way, found⟩
  rw [mem_entriesFrom, List.mem_singleton, Prod.mk.injEq]
  constructor
  · rintro ⟨⟨rest, rfl⟩, hfound⟩
    by_cases hrest : rest = []
    · rw [hrest, List.append_nil, hentry] at hfound
      exact ⟨by simp [hrest], (Option.some.inj hfound).symm⟩
    · have hthere : tree.entryAt (dir ++ (names ++ rest)) ≠ none := by simp [hfound]
      have hdirectory := h.directory_of_prefix hthere
        (show dir ++ names <+: dir ++ (names ++ rest) from ⟨rest, by simp⟩) (by simp [hrest])
      rw [hentry] at hdirectory
      exact absurd (Option.some.inj hdirectory) hother
  · rintro ⟨rfl, rfl⟩
    exact ⟨List.prefix_refl _, hentry⟩

/-! ## Searches and traversals -/

def outcomeOf (path : FilePath) : List (Location × Entry) → Except IoError (List Location)
  | [] => .ok []
  | (names, .file _) :: rest => (outcomeOf path rest).map fun files => names :: files
  | (_, .link _) :: rest => outcomeOf path rest
  | (names, .directory) :: rest =>
      if maxPathBytes ≤ (path.below names).text.utf8ByteSize then
        .error (.inTraversal (path.below names) .nameTooLong)
      else outcomeOf path rest

theorem traverse_eq_outcomeOf (tree : FileTree) (path : FilePath) (dir : Location) :
    tree.traverse path dir = outcomeOf path (tree.entriesBelow dir) := by
  rw [traverse, outOfReach?, directoriesBelow, filesBelow]
  induction tree.entriesBelow dir with
  | nil => rfl
  | cons found rest ih =>
      obtain ⟨names, entry⟩ := found
      cases entry with
      | file content =>
          rw [outcomeOf, ← ih]
          simp only [List.filterMap_cons]
          split <;> rfl
      | link target =>
          rw [outcomeOf, ← ih]
          simp only [List.filterMap_cons]
      | directory =>
          rw [outcomeOf, ← ih]
          simp only [List.filterMap_cons, List.map_cons, List.find?_cons]
          by_cases hlong : maxPathBytes ≤ (path.below names).text.utf8ByteSize
          · simp [hlong]
          · simp [hlong]

theorem flatMap_entriesFrom_directory (hformed : tree.IsWellFormed)
    (hdirectory : tree.entryAt (dir ++ names) = some .directory) (rest : List Location) :
    (names :: rest).flatMap (tree.entriesFrom dir) =
      (names, .directory) ::
        ((tree.namesIn (dir ++ names)).map (fun name => names ++ [name]) ++ rest).flatMap
          (tree.entriesFrom dir) := by
  rw [List.flatMap_cons, entriesFrom_directory hformed hdirectory, List.cons_append,
    List.flatMap_append, List.flatMap_map]

theorem flatMap_entriesFrom_other (hformed : tree.IsWellFormed) {entry : Entry}
    (hentry : tree.entryAt (dir ++ names) = some entry) (hother : entry ≠ .directory)
    (rest : List Location) :
    (names :: rest).flatMap (tree.entriesFrom dir) =
      (names, entry) :: rest.flatMap (tree.entriesFrom dir) := by
  rw [List.flatMap_cons, entriesFrom_other hformed hentry hother, List.singleton_append]

/-- A search comes to the entries in the order of their ways. -/
theorem Searches.outcome_eq (hformed : tree.IsWellFormed)
    (h : Searches tree path dir todo outcome) :
    outcome = outcomeOf path (todo.flatMap (tree.entriesFrom dir)) := by
  induction h with
  | done => rfl
  | file there _ ih => rw [flatMap_entriesFrom_other hformed there (by simp), outcomeOf, ih]
  | link there _ ih => rw [flatMap_entriesFrom_other hformed there (by simp), outcomeOf, ih]
  | refused there long =>
      rw [flatMap_entriesFrom_directory hformed there, outcomeOf, if_pos long]
  | opened there short listed sorted _ ih =>
      rw [flatMap_entriesFrom_directory hformed there, outcomeOf, if_neg (Nat.not_le.mpr short), ih,
        eq_namesIn listed sorted]

theorem searches_outcomeOf (hformed : tree.IsWellFormed) (path : FilePath)
    (hthere : ∀ names ∈ todo, tree.entryAt (dir ++ names) ≠ none) :
    Searches tree path dir todo (outcomeOf path (todo.flatMap (tree.entriesFrom dir))) := by
  -- every step of the search leaves one entry less to come to
  generalize hcount : (todo.flatMap (tree.entriesFrom dir)).length = count
  induction count using Nat.strongRecOn generalizing todo with
  | ind count ih =>
      cases todo with
      | nil => exact .done
      | cons names rest =>
          rw [List.forall_mem_cons] at hthere
          obtain ⟨hfirst, hrest⟩ := hthere
          obtain ⟨entry, hentry⟩ := Option.ne_none_iff_exists'.mp hfirst
          cases entry with
          | file content =>
              rw [flatMap_entriesFrom_other hformed hentry (by simp)] at hcount ⊢
              exact .file hentry (ih _ (hcount ▸ Nat.lt_succ_self _) hrest rfl)
          | link target =>
              rw [flatMap_entriesFrom_other hformed hentry (by simp)] at hcount ⊢
              exact .link hentry (ih _ (hcount ▸ Nat.lt_succ_self _) hrest rfl)
          | directory =>
              rw [flatMap_entriesFrom_directory hformed hentry] at hcount ⊢
              rw [outcomeOf]
              by_cases hlong : maxPathBytes ≤ (path.below names).text.utf8ByteSize
              · rw [if_pos hlong]
                exact .refused hentry hlong
              · rw [if_neg hlong]
                refine .opened hentry (Nat.not_le.mp hlong) (fun name => mem_namesIn)
                  (tree.sorted_namesIn _) (ih _ (hcount ▸ Nat.lt_succ_self _) ?_ rfl)
                intro others hmem
                rcases List.mem_append.mp hmem with hchild | hother
                · obtain ⟨name, hname, rfl⟩ := List.mem_map.mp hchild
                  rw [← List.append_assoc]
                  exact mem_namesIn.mp hname
                · exact hrest others hother

/-- A traversal has the outcome of a depth-first search, and of no other one. -/
theorem searches_iff (hformed : tree.IsWellFormed) (hdir : tree.entryAt dir = some .directory)
    (hshort : path.text.utf8ByteSize < maxPathBytes) :
    Searches tree path dir [[]] outcome ↔ outcome = tree.traverse path dir := by
  have hall : outcomeOf path ([[]].flatMap (tree.entriesFrom dir)) = tree.traverse path dir := by
    have hfrom : tree.entriesFrom dir [] = ([], .directory) :: tree.entriesBelow dir := by
      simp [entriesFrom, hdir]
    have hself : path.below [] = path := rfl
    rw [List.flatMap_singleton, hfrom, outcomeOf, hself, if_neg (Nat.not_le.mpr hshort),
      traverse_eq_outcomeOf]
  rw [← hall]
  constructor
  · exact fun h => h.outcome_eq hformed
  · rintro rfl
    refine searches_outcomeOf hformed path ?_
    simp [hdir]

end FileTree

end MediaMigration
