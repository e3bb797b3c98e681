import MediaMigration.Proofs.FileTree.Descent

/-!
# Failures that growth does not mend

That nothing is there is the only failure of a look-up that a new entry can mend. What is in
the way of a path, a file or a name that is too long, stays in the way, and a directory whose
path is too long for going through it stays there. A path that cannot be followed has one of
six causes for it.
-/

namespace MediaMigration

namespace FileTree

variable {tree later : FileTree}

theorem GrowsTo.requireDirectory_error (h : GrowsTo tree later) {place : Location}
    {error : IoError} (he : tree.requireDirectory place = .error error)
    (hne : error ≠ .notFound) : later.requireDirectory place = .error error := by
  unfold requireDirectory at he ⊢
  cases hentry : tree.entryAt place with
  | none =>
      rw [hentry] at he
      exact absurd (Except.error.inj he).symm hne
  | some entry =>
      rw [hentry] at he
      cases entry with
      | directory => exact absurd he (by simp)
      | file content =>
          obtain ⟨other, hother⟩ := h.file_kept place content hentry
          rw [hother]
          exact he
      | link target =>
          rw [h.link_kept hentry]
          exact he

theorem GrowsTo.walk_error (h : GrowsTo tree later) {dir : Location} {steps : List String}
    {error : IoError} (he : tree.walk dir steps = .error error) (hne : error ≠ .notFound) :
    later.walk dir steps = .error error := by
  have hkept : ∀ {dir : Location}, tree.requireDirectory dir = .ok () →
      later.entryAt dir = some .directory :=
    fun hdir => h.directory_kept _ (requireDirectory_ok_iff.mp hdir)
  fun_induction walk tree dir steps with
  | case2 | case6 | case9 => exact absurd he (by simp)
  | case1 dir cause hdir =>
      obtain rfl := Except.error.inj he
      exact walk_of_not_directory (h.requireDirectory_error hdir hne) []
  | case3 dir step rest cause hdir =>
      obtain rfl := Except.error.inj he
      exact walk_of_not_directory (h.requireDirectory_error hdir hne) (step :: rest)
  | case4 dir rest hdir ih => exact (walk_here later dir rest).trans (ih he)
  | case5 dir rest hdir _ ih => exact (walk_up (hkept hdir) rest).trans (ih he)
  | case7 dir step hdir hdot hup next others hlong =>
      exact (walk_long (hkept hdir) ⟨hdot, hup⟩ (List.cons_ne_nil next others) hlong).trans he
  | case8 => exact absurd (Except.error.inj he).symm hne
  | case10 dir step hdir hdot hup next others hlong entry hother hentry ih =>
      have hlink : ∀ target, later.entryAt (dir ++ [step]) ≠ some (.link target) := by
        intro target hlater
        rw [h.link_iff] at hlater
        exact hother target (Option.some.inj (hentry.symm.trans hlater))
      exact (walk_name (hkept hdir) ⟨hdot, hup⟩ (Nat.not_lt.mp hlong) (List.cons_ne_nil next others)
        hlink).trans (ih he)

theorem GrowsTo.walkTo_error (h : GrowsTo tree later) {purpose : Purpose} {dir : Location}
    {steps : List String} {slash : Bool} {error : IoError}
    (he : tree.walkTo purpose dir steps slash = .error error) (hne : error ≠ .notFound) :
    later.walkTo purpose dir steps slash = .error error := by
  unfold walkTo at he ⊢
  cases hwalk : tree.walk dir steps with
  | error cause =>
      simp only [hwalk, Except.error.injEq] at he
      subst he
      rw [h.walk_error hwalk hne]
  | ok halt =>
      rw [(h.walks (walks_of_walk_eq hwalk)).walk_eq]
      rw [hwalk] at he
      match halt with
      | .atLink parent target rest => exact absurd he (by simp)
      | .arrived (.self place) => exact absurd he (by simp)
      | .arrived (.child parent name) =>
          simp only at he ⊢
          by_cases hrefuse : purpose.refuses slash
          · rw [if_pos hrefuse] at he ⊢
            exact he
          · rw [if_neg hrefuse] at he ⊢
            by_cases hlong : maxNameBytes < name.utf8ByteSize
            · rw [if_pos hlong] at he ⊢
              exact he
            · rw [if_neg hlong] at he
              split at he
              · split at he
                · exact absurd he (by simp)
                · exact absurd he (by simp)
              · exact absurd he (by simp)

theorem GrowsTo.locate_error (h : GrowsTo tree later) {purpose : Purpose} {links : Nat}
    {dir : Location} {steps : List String} {slash : Bool} {error : IoError}
    (he : tree.locate purpose links dir steps slash = .error error) (hne : error ≠ .notFound) :
    later.locate purpose links dir steps slash = .error error := by
  fun_induction locate tree purpose links dir steps slash with
  | case1 links dir steps slash cause hhalt =>
      obtain rfl := Except.error.inj he
      rw [locate.eq_def, h.walkTo_error hhalt hne]
  | case2 => exact absurd he (by simp)
  | case3 dir steps slash parent target rest hhalt =>
      rw [locate, (h.halts (halts_of_walkTo_eq hhalt)).walkTo_eq]
      exact he
  | case4 => exact absurd (Except.error.inj he).symm hne
  | case5 dir steps slash parent target rest hhalt links path htarget ih =>
      rw [locate, (h.halts (halts_of_walkTo_eq hhalt)).walkTo_eq]
      simp only [if_neg htarget]
      exact ih he

theorem GrowsTo.resolve_error (h : GrowsTo tree later) {purpose : Purpose} {path : FilePath}
    {error : IoError} (he : tree.resolve purpose path = .error error)
    (hne : error ≠ .notFound) : later.resolve purpose path = .error error := by
  unfold resolve at he ⊢
  by_cases hnul : '\x00' ∈ path.text.toList
  · rw [if_pos hnul] at he ⊢
    exact he
  · rw [if_neg hnul] at he ⊢
    by_cases hempty : path.text = ""
    · rw [if_pos hempty] at he ⊢
      exact he
    · rw [if_neg hempty] at he ⊢
      by_cases hlong : maxPathBytes ≤ path.text.utf8ByteSize
      · rw [if_pos hlong] at he ⊢
        exact he
      · rw [if_neg hlong] at he ⊢
        rw [h.workDir_eq]
        exact h.locate_error he hne

/-- What a path fails for stays, unless nothing was there. -/
theorem GrowsTo.lookUp_error (h : GrowsTo tree later) {follow : Bool} {path : FilePath}
    {error : IoError} (he : tree.lookUp follow path = .error error)
    (hne : error ≠ .notFound) : later.lookUp follow path = .error error := by
  unfold lookUp at he ⊢
  cases hr : tree.resolve (.see follow) path with
  | error cause =>
      simp only [hr, Except.error.injEq] at he
      subst he
      rw [h.resolve_error hr hne]
  | ok found =>
      obtain ⟨spot, slash⟩ := found
      rw [h.resolve_eq hr]
      rw [hr] at he
      cases spot with
      | self dir => exact absurd he (by simp)
      | child dir name =>
          simp only at he ⊢
          cases hentry : tree.entryAt (dir ++ [name]) with
          | none =>
              simp only [hentry, Except.error.injEq] at he
              exact absurd he.symm hne
          | some entry =>
              rw [hentry] at he
              cases entry with
              | directory => exact absurd he (by simp)
              | file content =>
                  obtain ⟨other, hother⟩ := h.file_kept _ _ hentry
                  rw [hother]
                  simp only at he ⊢
                  split at he
                  · next hslash =>
                      rw [if_pos hslash]
                      exact he
                  · exact absurd he (by simp)
              | link target =>
                  rw [h.link_kept hentry]
                  simp only at he ⊢
                  split at he
                  · next hslash =>
                      rw [if_pos hslash]
                      exact he
                  · exact absurd he (by simp)

/-! ## Directories that cannot be gone through -/

theorem mem_directoriesBelow {dir names : Location} :
    names ∈ tree.directoriesBelow dir ↔
      names ≠ [] ∧ tree.entryAt (dir ++ names) = some .directory := by
  simp only [directoriesBelow, List.mem_filterMap, Prod.exists, mem_entriesBelow]
  constructor
  · rintro ⟨place, entry, ⟨hne, hentry⟩, hdirectory⟩
    cases entry with
    | directory =>
        obtain rfl := Option.some.inj hdirectory
        refine ⟨hne, ?_⟩
        rw [entryAt, if_neg (by simp [hne]), hentry]
    | file content => exact absurd hdirectory (by simp)
    | link target => exact absurd hdirectory (by simp)
  · rintro ⟨hne, hentry⟩
    rw [entryAt, if_neg (by simp [hne])] at hentry
    exact ⟨names, .directory, ⟨hne, hentry⟩, rfl⟩

/-- The directories below one are opened by paths that are short enough. -/
def InReach (tree : FileTree) (path : FilePath) (dir : Location) : Prop :=
  ∀ names, names ≠ [] → tree.entryAt (dir ++ names) = some .directory →
    (path.below names).text.utf8ByteSize < maxPathBytes

theorem outOfReach?_eq_none_iff {path : FilePath} {dir : Location} :
    tree.outOfReach? path dir = none ↔ tree.InReach path dir := by
  simp only [outOfReach?, List.find?_eq_none, List.forall_mem_map, mem_directoriesBelow,
    decide_eq_true_eq, Nat.not_le, InReach, and_imp]

/-- A directory is gone through exactly if everything below it can be opened. -/
theorem traverse_eq_ok_iff {path : FilePath} {dir : Location} {files : List Location} :
    tree.traverse path dir = .ok files ↔
      tree.InReach path dir ∧ files = tree.filesBelow dir := by
  rw [← outOfReach?_eq_none_iff, traverse]
  cases tree.outOfReach? path dir with
  | none => simp [eq_comm]
  | some out => simp

theorem traverse_error_iff {path : FilePath} {dir : Location} :
    (∃ cause, tree.traverse path dir = .error cause) ↔ ¬ tree.InReach path dir := by
  rw [← outOfReach?_eq_none_iff, traverse]
  cases tree.outOfReach? path dir with
  | none => simp
  | some out => simp

theorem GrowsTo.traverse_error (h : GrowsTo tree later) {path : FilePath} {place : Location}
    {error : IoError} (he : tree.traverse path place = .error error) :
    ∃ cause, later.traverse path place = .error cause := by
  rw [traverse_error_iff]
  intro hlater
  refine traverse_error_iff.mp ⟨error, he⟩ fun names hne hentry => ?_
  exact hlater names hne (h.directory_kept _ hentry)

/-- A path leads to a directory with one below it, or at it, that has too long a path to be opened. -/
def IsTooDeep (tree : FileTree) (path : FilePath) : Prop :=
  ∃ dir names, tree.lookUp true path = .ok (dir, .directory) ∧
    tree.entryAt (dir ++ names) = some .directory ∧
    maxPathBytes ≤ (path.below names).text.utf8ByteSize

theorem short_of_lookUp {follow : Bool} {path : FilePath} {found : Location × Entry}
    (h : tree.lookUp follow path = .ok found) : path.text.utf8ByteSize < maxPathBytes := by
  obtain ⟨spot, slash, hr, -⟩ := lookUp_eq_ok_iff.mp h
  exact (resolve_eq_ok_iff.mp hr).1.short

theorem isTooDeep_iff {path : FilePath} :
    tree.IsTooDeep path ↔
      ∃ dir, tree.lookUp true path = .ok (dir, .directory) ∧ ¬ tree.InReach path dir := by
  constructor
  · rintro ⟨dir, names, hfound, hentry, hlong⟩
    refine ⟨dir, hfound, fun hreach => Nat.not_lt.mpr hlong (hreach names ?_ hentry)⟩
    rintro rfl
    exact Nat.not_lt.mpr hlong (short_of_lookUp hfound)
  · rintro ⟨dir, hfound, hout⟩
    simp only [InReach, not_forall, Nat.not_lt] at hout
    obtain ⟨names, -, hentry, hlong⟩ := hout
    exact ⟨dir, names, hfound, hentry, hlong⟩

/-! ## Without links -/

theorem IsPlain.walkTo_see (h : tree.IsPlain) (dir : Location) (steps : List String)
    (slash : Bool) :
    tree.walkTo (.see false) dir steps slash = tree.walkTo (.see true) dir steps slash := by
  unfold walkTo
  cases tree.walk dir steps with
  | error error => rfl
  | ok halt =>
      match halt with
      | .atLink parent target rest => rfl
      | .arrived (.self place) => rfl
      | .arrived (.child parent name) =>
          simp only [Purpose.refuses, Bool.false_eq_true, if_false]
          by_cases hlong : maxNameBytes < name.utf8ByteSize
          · rw [if_pos hlong, if_pos hlong]
          · rw [if_neg hlong, if_neg hlong]
            cases hentry : tree.entryAt (parent ++ [name]) with
            | none => rfl
            | some entry =>
                cases entry with
                | file content => rfl
                | directory => rfl
                | link target => exact absurd hentry (h.no_link _ target)

theorem IsPlain.locate_see (h : tree.IsPlain) (links : Nat) (dir : Location)
    (steps : List String) (slash : Bool) :
    tree.locate (.see false) links dir steps slash =
      tree.locate (.see true) links dir steps slash := by
  induction links generalizing dir steps slash with
  | zero => rw [locate, locate, h.walkTo_see]
  | succ links ih =>
      unfold locate
      rw [h.walkTo_see]
      cases tree.walkTo (.see true) dir steps slash with
      | error error => rfl
      | ok halt =>
          cases halt with
          | arrived spot => rfl
          | atLink parent target rest => simp only [ih]

theorem IsPlain.lookUp_false_eq (h : tree.IsPlain) (path : FilePath) :
    tree.lookUp false path = tree.lookUp true path := by
  have hresolve : tree.resolve (.see false) path = tree.resolve (.see true) path := by
    unfold resolve
    rw [h.locate_see]
  rw [lookUp, lookUp, hresolve]

/-! ## Causes -/

def walkCauses : List IoError :=
  [.notFound, .notDirectory, .nameTooLong]

def lookUpCauses : List IoError :=
  [.notFound, .notDirectory, .isDirectory, .nameTooLong, .tooManyLinks, .nulInPath]

theorem walkCauses_subset : walkCauses ⊆ lookUpCauses := by
  decide

theorem requireDirectory_cause {place : Location} {error : IoError}
    (he : tree.requireDirectory place = .error error) : error ∈ walkCauses := by
  unfold requireDirectory at he
  split at he
  · simp [← Except.error.inj he, walkCauses]
  · exact absurd he (by simp)
  · simp [← Except.error.inj he, walkCauses]

theorem walk_cause {dir : Location} {steps : List String} {error : IoError}
    (he : tree.walk dir steps = .error error) : error ∈ walkCauses := by
  fun_induction walk tree dir steps with
  | case2 | case6 | case9 => exact absurd he (by simp)
  | case1 dir cause hdir | case3 dir step rest cause hdir =>
      exact requireDirectory_cause (Except.error.inj he ▸ hdir)
  | case7 | case8 => simp [← Except.error.inj he, walkCauses]
  | case4 dir rest hdir ih => exact ih he
  | case5 dir rest hdir _ ih => exact ih he
  | case10 dir step hdir _ _ next others _ entry _ _ ih => exact ih he

theorem walkTo_cause {purpose : Purpose} {dir : Location} {steps : List String} {slash : Bool}
    {error : IoError} (he : tree.walkTo purpose dir steps slash = .error error) :
    error ∈ lookUpCauses := by
  unfold walkTo at he
  split at he
  · split at he
    · simp [← Except.error.inj he, lookUpCauses]
    · split at he
      · simp [← Except.error.inj he, lookUpCauses]
      · split at he
        · split at he
          · exact absurd he (by simp)
          · exact absurd he (by simp)
        · exact absurd he (by simp)
  · exact walkCauses_subset (walk_cause he)

theorem locate_cause {purpose : Purpose} {links : Nat} {dir : Location} {steps : List String}
    {slash : Bool} {error : IoError}
    (he : tree.locate purpose links dir steps slash = .error error) : error ∈ lookUpCauses := by
  fun_induction locate tree purpose links dir steps slash with
  | case1 links dir steps slash cause hhalt => exact walkTo_cause (Except.error.inj he ▸ hhalt)
  | case2 => exact absurd he (by simp)
  | case3 | case4 => simp [← Except.error.inj he, lookUpCauses]
  | case5 dir steps slash parent target rest hhalt links path htarget ih => exact ih he

theorem resolve_cause {purpose : Purpose} {path : FilePath} {error : IoError}
    (he : tree.resolve purpose path = .error error) : error ∈ lookUpCauses := by
  unfold resolve at he
  split at he
  · simp [← Except.error.inj he, lookUpCauses]
  · split at he
    · simp [← Except.error.inj he, lookUpCauses]
    · split at he
      · simp [← Except.error.inj he, lookUpCauses]
      · exact locate_cause he

end FileTree

end MediaMigration
