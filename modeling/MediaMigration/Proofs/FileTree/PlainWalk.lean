import MediaMigration.Proofs.FileTree.Continuation
import MediaMigration.Proofs.FileTree.Failure

/-!
# Walks in a tree without links

Without links a step by name leads into the entry of that name, so resolving a path is one walk and
a look at its last name. Staying where one is makes no difference on the way. Where nothing is,
nothing is below, and a path that goes up from directories only cannot come back from there.
-/

namespace MediaMigration

namespace FileTree

open FilePath

variable {tree : FileTree} {dir : Location} {path : FilePath}

/-! ## What is there and what is missing -/

theorem IsWellFormed.directory_dropLast (h : tree.IsWellFormed)
    (hdir : tree.entryAt dir = some .directory) :
    tree.entryAt dir.dropLast = some .directory := by
  by_cases hne : dir = []
  · rw [hne]
    rfl
  · apply h.parent dir.dropLast (dir.getLast hne)
    rw [List.dropLast_concat_getLast, hdir]
    simp

theorem IsPlain.startOf_directory (h : tree.IsPlain) (path : FilePath) :
    tree.entryAt (tree.startOf path) = some .directory := by
  unfold startOf
  split
  · rfl
  · exact h.workDir

theorem IsWellFormed.missing_below (h : tree.IsWellFormed) (hdir : tree.entryAt dir = none)
    (names : Location) : tree.entryAt (dir ++ names) = none := by
  by_contra hthere
  by_cases hnames : names = []
  · rw [hnames, List.append_nil] at hthere
    exact hthere hdir
  · have hdirectory := h.directory_of_prefix hthere (List.prefix_append dir names)
      (by simpa using hnames)
    rw [hdir] at hdirectory
    exact absurd hdirectory (by simp)

/-- From where nothing is, a path that goes up from directories only goes down. -/
theorem IsWellFormed.not_up_of_missing (h : tree.IsWellFormed) {steps : List String}
    (hups : tree.UpsExist dir steps) (hdir : tree.entryAt dir = none) : ".." ∉ steps := by
  induction steps generalizing dir with
  | nil => simp
  | cons step rest ih =>
      rw [UpsExist] at hups
      rw [List.mem_cons, not_or]
      by_cases hdot : step = "."
      · rw [if_pos hdot] at hups
        exact ⟨by simp [hdot], ih hups hdir⟩
      · rw [if_neg hdot] at hups
        by_cases hup : step = ".."
        · rw [if_pos hup, hdir] at hups
          exact absurd hups.1 (by simp)
        · rw [if_neg hup] at hups
          exact ⟨Ne.symm hup, ih hups (h.missing_below hdir [step])⟩

theorem IsWellFormed.missing_below_put (h : tree.IsWellFormed) {place : Location}
    (hfree : tree.entryAt place = none) {names : Location} (hnames : names ≠ []) (entry : Entry) :
    (tree.put place entry).entryAt (place ++ names) = none := by
  rw [entryAt_put tree (ne_root_of_free hfree), if_neg (by simpa using hnames)]
  exact h.missing_below hfree names

/-! ## Single steps -/

theorem IsPlain.walk_name (h : tree.IsPlain) (hdir : tree.entryAt dir = some .directory)
    {step : String} {rest : List String} (hstep : IsNameStep step) (hrest : rest ≠ [])
    (hshort : ¬ maxNameBytes < step.utf8ByteSize) :
    tree.walk dir (step :: rest) = tree.walk (dir ++ [step]) rest :=
  FileTree.walk_name hdir hstep (Nat.not_lt.mp hshort) hrest fun target => h.no_link _ target

/-! ## Staying on the way -/

theorem walk_of_filter_eq_nil {steps : List String}
    (h : (steps.filter fun step => step != ".") = []) : tree.walk dir steps = tree.walk dir [] := by
  induction steps with
  | nil => rfl
  | cons step rest ih =>
      rw [List.filter_eq_nil_iff] at h ih
      obtain rfl : step = "." := by simpa using h step List.mem_cons_self
      rw [walk_here]
      exact ih fun other hother => h other (List.mem_cons_of_mem _ hother)

theorem IsPlain.walk_filter (h : tree.IsPlain) (dir : Location) (steps : List String)
    (last : String) :
    tree.walk dir ((steps.filter fun step => step != ".") ++ [last]) =
      tree.walk dir (steps ++ [last]) := by
  induction steps generalizing dir with
  | nil => rfl
  | cons step rest ih =>
      by_cases hdot : step = "."
      · rw [List.filter_cons_of_neg (by simp [hdot]), hdot, List.cons_append, walk_here]
        exact ih dir
      · rw [List.filter_cons_of_pos (by simp [hdot]), List.cons_append, List.cons_append]
        cases hdir : tree.requireDirectory dir with
        | error error => rw [walk_of_not_directory hdir, walk_of_not_directory hdir]
        | ok _ =>
            have hthere := requireDirectory_ok_iff.mp hdir
            by_cases hup : step = ".."
            · rw [hup, walk_up hthere, walk_up hthere]
              exact ih dir.dropLast
            · by_cases hlong : maxNameBytes < step.utf8ByteSize
              · rw [walk_long hthere ⟨hdot, hup⟩ (by simp) hlong,
                  walk_long hthere ⟨hdot, hup⟩ (by simp) hlong]
              · rw [h.walk_name hthere ⟨hdot, hup⟩ (by simp) hlong,
                  h.walk_name hthere ⟨hdot, hup⟩ (by simp) hlong]
                exact ih (dir ++ [step])

/-- The moves of a path lead where its steps do, unless the path stays at its end. -/
theorem IsPlain.walk_moves (h : tree.IsPlain) (hend : path.EndsInMove) (dir : Location) :
    tree.walk dir path.moves = tree.walk dir path.steps := by
  rw [moves_eq_filter_steps]
  rcases hend with hnone | ⟨before, last, hsteps, hlast⟩
  · rw [moves_eq_filter_steps] at hnone
    rw [hnone, walk_of_filter_eq_nil hnone]
  · rw [hsteps, List.filter_append, List.filter_cons_of_pos (by simp [hlast]), List.filter_nil]
    exact h.walk_filter dir before last

/-! ## Whole paths -/

theorem resolve_of_not_searchable (h : ¬ IsSearchable path) :
    ∃ error, (path.text ≠ "" → error ≠ .notFound) ∧
      ∀ (tree : FileTree) purpose, tree.resolve purpose path = .error error := by
  by_cases hnul : '\x00' ∈ path.text.toList
  · refine ⟨.nulInPath, by simp, fun tree purpose => ?_⟩
    rw [resolve, if_pos hnul]
  · by_cases hempty : path.text = ""
    · refine ⟨.notFound, fun hne => absurd hempty hne, fun tree purpose => ?_⟩
      rw [resolve, if_neg hnul, if_pos hempty]
    · refine ⟨.nameTooLong, by simp, fun tree purpose => ?_⟩
      have hlong : maxPathBytes ≤ path.text.utf8ByteSize :=
        Nat.not_lt.mp fun hshort => h ⟨hnul, hempty, hshort⟩
      rw [resolve, if_neg hnul, if_neg hempty, if_pos hlong]

/-- Resolving a path is a walk and a look at the last name. -/
theorem IsPlain.resolve_eq_walk (h : tree.IsPlain) (hpath : IsSearchable path)
    (purpose : Purpose) :
    tree.resolve purpose path =
      match tree.walk (tree.startOf path) path.steps with
      | .error error => .error error
      | .ok (.arrived (.self place)) => .ok (.self place, path.endsWithSlash)
      | .ok (.arrived (.child parent name)) =>
          if purpose.refuses path.endsWithSlash then .error .isDirectory
          else if maxNameBytes < name.utf8ByteSize then .error .nameTooLong
          else .ok (.child parent name, path.endsWithSlash)
      | .ok (.atLink _ _ _) => .error .tooManyLinks := by
  rw [resolve, if_neg hpath.no_nul, if_neg hpath.not_empty, if_neg (Nat.not_le.mpr hpath.short),
    ← startOf]
  cases hwalk : tree.walk (tree.startOf path) path.steps with
  | error error => rw [locate.eq_def, walkTo, hwalk]
  | ok halt =>
      cases halt with
      | atLink parent target rest =>
          obtain ⟨place, hlink⟩ := (walks_of_walk_eq hwalk).link_at_halt
          exact absurd hlink (h.no_link place _)
      | arrived spot =>
          cases spot with
          | self place => rw [locate.eq_def, walkTo, hwalk]
          | child parent name =>
              rw [locate.eq_def, walkTo, hwalk]
              simp only
              by_cases hrefuse : purpose.refuses path.endsWithSlash
              · rw [if_pos hrefuse, if_pos hrefuse]
              · rw [if_neg hrefuse, if_neg hrefuse]
                by_cases hlong : maxNameBytes < name.utf8ByteSize
                · rw [if_pos hlong, if_pos hlong]
                · rw [if_neg hlong, if_neg hlong]
                  cases hentry : tree.entryAt (parent ++ [name]) with
                  | none => rfl
                  | some entry =>
                      cases entry with
                      | link target => exact absurd hentry (h.no_link _ target)
                      | file content => rfl
                      | directory => rfl

def plainCauses : List IoError :=
  [.notFound, .notDirectory, .nameTooLong, .nulInPath]

theorem walkCauses_subset_plainCauses : walkCauses ⊆ plainCauses := by
  decide

theorem IsPlain.resolve_cause (h : tree.IsPlain) {error : IoError}
    (he : tree.resolve (.see true) path = .error error) : error ∈ plainCauses := by
  by_cases hpath : IsSearchable path
  · rw [h.resolve_eq_walk hpath] at he
    cases hwalk : tree.walk (tree.startOf path) path.steps with
    | error cause =>
        rw [hwalk] at he
        rw [← Except.error.inj he]
        exact walkCauses_subset_plainCauses (walk_cause hwalk)
    | ok halt =>
        rw [hwalk] at he
        match halt with
        | .atLink _ _ _ =>
            obtain ⟨place, hlink⟩ := (walks_of_walk_eq hwalk).link_at_halt
            exact absurd hlink (h.no_link place _)
        | .arrived (.self place) => exact absurd he (by simp)
        | .arrived (.child parent name) =>
            simp only [Purpose.refuses, Bool.false_eq_true, if_false] at he
            split at he
            · simp [← Except.error.inj he, plainCauses]
            · exact absurd he (by simp)
  · unfold resolve at he
    split at he
    · simp [← Except.error.inj he, plainCauses]
    · next hnul =>
        split at he
        · simp [← Except.error.inj he, plainCauses]
        · next hempty =>
            have hlong := Nat.not_lt.mp fun hshort => hpath ⟨hnul, hempty, hshort⟩
            rw [if_pos hlong] at he
            simp [← Except.error.inj he, plainCauses]

theorem IsPlain.lookUp_cause (h : tree.IsPlain) {error : IoError}
    (he : tree.lookUp true path = .error error) : error ∈ plainCauses := by
  unfold lookUp at he
  split at he
  · next hr => exact h.resolve_cause (Except.error.inj he ▸ hr)
  · exact absurd he (by simp)
  · split at he
    · simp [← Except.error.inj he, plainCauses]
    · exact absurd he (by simp)
    · split at he
      · simp [← Except.error.inj he, plainCauses]
      · exact absurd he (by simp)

theorem lookUp_of_resolve_error {follow : Bool} {error : IoError}
    (h : tree.resolve (.see follow) path = .error error) :
    tree.lookUp follow path = .error error := by
  rw [lookUp, h]

/-- A name that is too long is refused in a directory, and not looked for where none is. -/
theorem IsPlain.lookUp_long_name (h : tree.IsPlain) (hpath : IsSearchable path) {outer name : String}
    (hsteps : path.steps = [".", outer, name]) (houter : IsNameStep outer)
    (hshort : ¬ maxNameBytes < outer.utf8ByteSize) (hname : IsNameStep name)
    (hlong : maxNameBytes < name.utf8ByteSize) :
    (tree.entryAt (tree.startOf path ++ [outer]) = none →
        tree.lookUp true path = .error .notFound) ∧
      (tree.entryAt (tree.startOf path ++ [outer]) = some .directory →
        tree.lookUp true path = .error .nameTooLong) := by
  rw [lookUp, h.resolve_eq_walk hpath, hsteps, walk_here,
    h.walk_name (h.startOf_directory path) houter (by simp) hshort]
  constructor
  · intro hmissing
    have hstop : tree.requireDirectory (tree.startOf path ++ [outer]) = .error .notFound := by
      rw [requireDirectory, hmissing]
    rw [walk_of_not_directory hstop]
  · intro hthere
    rw [walk_last hthere hname]
    simp [Purpose.refuses, hlong]

end FileTree

end MediaMigration
