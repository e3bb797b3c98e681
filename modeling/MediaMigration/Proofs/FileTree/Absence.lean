import MediaMigration.Proofs.FileTree.Failure
import MediaMigration.Proofs.FileTree.PlainWalk

/-!
# What stays missing

A path that finds nothing may find something, or fail for another reason, once the tree has grown.
It does not if at its location everything is as it was, on the way only directories are new, and
the path neither goes up from one of these nor looks there for a name that is too long: then it
stops at the first thing that is missing still, and finds nothing again.
-/

namespace MediaMigration

namespace FileTree

open FilePath

/-- Every name among the steps that is too long is looked for in a directory of the tree. -/
def LongsExist (tree : FileTree) : Location → List String → Prop
  | _, [] => True
  | dir, step :: rest =>
      if step = "." then tree.LongsExist dir rest
      else if step = ".." then tree.LongsExist dir.dropLast rest
      else
        (maxNameBytes < step.utf8ByteSize → tree.entryAt dir = some .directory) ∧
          tree.LongsExist (dir ++ [step]) rest

instance decidableLongsExist (tree : FileTree) :
    (dir : Location) → (steps : List String) → Decidable (tree.LongsExist dir steps)
  | _, [] => isTrue trivial
  | dir, step :: rest =>
      have := decidableLongsExist tree dir rest
      have := decidableLongsExist tree dir.dropLast rest
      have := decidableLongsExist tree (dir ++ [step]) rest
      inferInstanceAs (Decidable (if step = "." then tree.LongsExist dir rest
        else if step = ".." then tree.LongsExist dir.dropLast rest
        else
          (maxNameBytes < step.utf8ByteSize → tree.entryAt dir = some .directory) ∧
            tree.LongsExist (dir ++ [step]) rest))

def LongNamesInDirectories (tree : FileTree) (path : FilePath) : Prop :=
  tree.LongsExist (tree.startOf path) path.steps

instance (tree : FileTree) (path : FilePath) : Decidable (tree.LongNamesInDirectories path) :=
  decidableLongsExist tree (tree.startOf path) path.steps

/-- On the way to a place nothing but directories is new in a later tree. -/
def OnlyDirectoriesNew (tree later : FileTree) (goal : Location) : Prop :=
  ∀ place, place <+: goal → tree.entryAt place = none →
    later.entryAt place = none ∨ later.entryAt place = some .directory

/-- A walk that finds nothing on its way, or comes to its end. -/
def StopsOrArrives (tree : FileTree) (dir : Location) (steps : List String) : Prop :=
  tree.walk dir steps = .error .notFound ∨
    ∃ spot, tree.walk dir steps = .ok (.arrived spot) ∧
      ∀ parent name, spot = .child parent name → ¬ maxNameBytes < name.utf8ByteSize

variable {start later : FileTree} {dir : Location} {path : FilePath}

/-! ## Walks -/

/-- From a place where nothing was, a walk stops or arrives. -/
theorem IsPlain.stopsOrArrives_of_missing (hstart : start.IsPlain) (hlater : later.IsPlain)
    {steps : List String} (hdir : start.entryAt dir = none) (hups : start.UpsExist dir steps)
    (hlongs : start.LongsExist dir steps)
    (hnew : OnlyDirectoriesNew start later (follow dir steps)) :
    later.StopsOrArrives dir steps := by
  induction steps generalizing dir with
  | nil =>
      rcases hnew dir (List.prefix_refl dir) hdir with hnone | hthere
      · left
        apply walk_of_not_directory
        rw [requireDirectory, hnone]
      · exact .inr ⟨.self dir, (Walks.stop hthere).walk_eq, by simp⟩
  | cons step rest ih =>
      rcases hstart.toIsWellFormed.directory_or_prefix hups with hdirectory | hway
      · rw [hdir] at hdirectory
        exact absurd hdirectory (by simp)
      · rcases hnew dir hway hdir with hnone | hthere
        · left
          apply walk_of_not_directory
          rw [requireDirectory, hnone]
        · rw [UpsExist] at hups
          rw [LongsExist] at hlongs
          rw [follow] at hnew
          unfold StopsOrArrives
          by_cases hdot : step = "."
          · rw [if_pos hdot] at hups hlongs hnew
            rw [hdot, walk_here]
            exact ih hdir hups hlongs hnew
          · rw [if_neg hdot] at hups hlongs hnew
            by_cases hup : step = ".."
            · rw [if_pos hup, hdir] at hups
              exact absurd hups.1 (by simp)
            · rw [if_neg hup] at hups hlongs hnew
              have hshort : ¬ maxNameBytes < step.utf8ByteSize := by
                intro hlong
                have hdirectory := hlongs.1 hlong
                rw [hdir] at hdirectory
                exact absurd hdirectory (by simp)
              by_cases hrest : rest = []
              · right
                refine ⟨.child dir step, ?_, ?_⟩
                · rw [hrest]
                  exact walk_last hthere ⟨hdot, hup⟩
                · rintro _ _ ⟨⟩
                  exact hshort
              · rw [hlater.walk_name hthere ⟨hdot, hup⟩ hrest hshort]
                exact ih (hstart.toIsWellFormed.missing_below hdir [step]) hups hlongs.2 hnew

theorem IsPlain.stopsOrArrives (hstart : start.IsPlain) (hlater : later.IsPlain)
    (hgrows : GrowsTo start later) {steps : List String}
    (hdir : start.entryAt dir = some .directory) (hups : start.UpsExist dir steps)
    (hlongs : start.LongsExist dir steps)
    (hnew : OnlyDirectoriesNew start later (follow dir steps))
    (hmissing : start.walk dir steps = .error .notFound) : later.StopsOrArrives dir steps := by
  induction steps generalizing dir with
  | nil =>
      rw [(Walks.stop hdir).walk_eq] at hmissing
      exact absurd hmissing (by simp)
  | cons step rest ih =>
      have hthere := hgrows.directory_kept dir hdir
      rw [UpsExist] at hups
      rw [LongsExist] at hlongs
      rw [follow] at hnew
      unfold StopsOrArrives
      by_cases hdot : step = "."
      · rw [if_pos hdot] at hups hlongs hnew
        rw [hdot, walk_here] at hmissing ⊢
        exact ih hdir hups hlongs hnew hmissing
      · rw [if_neg hdot] at hups hlongs hnew
        by_cases hup : step = ".."
        · rw [if_pos hup] at hups hlongs hnew
          rw [hup, walk_up hdir] at hmissing
          rw [hup, walk_up hthere]
          exact ih (hstart.toIsWellFormed.directory_dropLast hdir) hups.2 hlongs hnew hmissing
        · rw [if_neg hup] at hups hlongs hnew
          have hstep : IsNameStep step := ⟨hdot, hup⟩
          by_cases hrest : rest = []
          · rw [hrest, walk_last hdir hstep] at hmissing
            exact absurd hmissing (by simp)
          · by_cases hlong : maxNameBytes < step.utf8ByteSize
            · rw [walk_long hdir hstep hrest hlong] at hmissing
              exact absurd hmissing (by simp)
            · rw [hstart.walk_name hdir hstep hrest hlong] at hmissing
              rw [hlater.walk_name hthere hstep hrest hlong]
              cases hentry : start.entryAt (dir ++ [step]) with
              | none => exact hstart.stopsOrArrives_of_missing hlater hentry hups hlongs.2 hnew
              | some entry =>
                  cases entry with
                  | directory => exact ih hentry hups hlongs.2 hnew hmissing
                  | link target => exact absurd hentry (hstart.no_link _ target)
                  | file content =>
                      have hblocked : start.requireDirectory (dir ++ [step]) =
                          .error .notDirectory := by
                        rw [requireDirectory, hentry]
                      rw [walk_of_not_directory hblocked] at hmissing
                      exact absurd hmissing (by simp)

/-! ## Paths -/

/-- A path that comes to a name finds nothing where nothing has that name, if it is not too long. -/
theorem IsPlain.lookUp_missing_iff (h : start.IsPlain) (hpath : IsSearchable path)
    {parent : Location} {name : String}
    (hwalk : start.walk (start.startOf path) path.steps = .ok (.arrived (.child parent name))) :
    start.lookUp true path = .error .notFound ↔
      ¬ maxNameBytes < name.utf8ByteSize ∧ start.entryAt (parent ++ [name]) = none := by
  rw [lookUp, h.resolve_eq_walk hpath, hwalk]
  simp only [Purpose.refuses, Bool.false_eq_true, if_false]
  by_cases hlong : maxNameBytes < name.utf8ByteSize
  · simp [hlong]
  · rw [if_neg hlong]
    simp only [hlong, not_false_eq_true, true_and]
    cases start.entryAt (parent ++ [name]) with
    | none => simp
    | some entry => cases entry <;> cases path.endsWithSlash <;> simp

/-- Where a walk found something missing and nothing came to the end of the path, a later one finds
nothing either. -/
theorem IsPlain.lookUp_missing_of_walk (hstart : start.IsPlain) (hlater : later.IsPlain)
    (hgrows : GrowsTo start later) (hpath : IsSearchable path)
    (hups : start.GoesUpFromDirectories path) (hlongs : start.LongNamesInDirectories path)
    (hnew : OnlyDirectoriesNew start later (start.locationOf path))
    (hend : later.entryAt (start.locationOf path) = start.entryAt (start.locationOf path))
    (hwalk : start.walk (start.startOf path) path.steps = .error .notFound) :
    later.lookUp true path = .error .notFound := by
  have hsame := startOf_eq hgrows.workDir_eq path
  rcases hstart.stopsOrArrives hlater hgrows (hstart.startOf_directory path) hups hlongs hnew
    hwalk with hstops | ⟨spot, harrives, hshort⟩
  · rw [lookUp, hlater.resolve_eq_walk hpath, hsame, hstops]
  · have hlaterWalk := walks_of_walk_eq harrives
    have hplace : spot.place = start.locationOf path := hlaterWalk.place_eq
    -- were anything there, the walk would have come to it before
    have hfree : start.entryAt spot.place = none := by
      by_contra hthere
      have hbefore := hstart.toIsWellFormed.walks_of_later hlaterWalk hups hthere
        (by rw [hplace, hend])
      rw [hbefore.walk_eq] at hwalk
      exact absurd hwalk (by simp)
    rw [← hplace, hfree] at hend
    cases spot with
    | self place =>
        have hthere : later.entryAt place = some .directory := hlaterWalk.directory_at_end
        exact absurd (hthere.symm.trans hend) (by simp)
    | child parent name =>
        rw [← hsame] at harrives
        exact (hlater.lookUp_missing_iff hpath harrives).mpr ⟨hshort parent name rfl, hend⟩

theorem IsPlain.lookUp_missing (hstart : start.IsPlain) (hlater : later.IsPlain)
    (hgrows : GrowsTo start later) (hups : start.GoesUpFromDirectories path)
    (hlongs : start.LongNamesInDirectories path)
    (hnew : OnlyDirectoriesNew start later (start.locationOf path))
    (hend : later.entryAt (start.locationOf path) = start.entryAt (start.locationOf path))
    (hmissing : start.lookUp true path = .error .notFound) :
    later.lookUp true path = .error .notFound := by
  by_cases hpath : IsSearchable path
  · have hfound := hmissing
    rw [lookUp, hstart.resolve_eq_walk hpath] at hfound
    cases hwalk : start.walk (start.startOf path) path.steps with
    | error error =>
        rw [hwalk] at hfound
        obtain rfl : error = .notFound := Except.error.inj hfound
        exact hstart.lookUp_missing_of_walk hlater hgrows hpath hups hlongs hnew hend hwalk
    | ok halt =>
        have hbefore := walks_of_walk_eq hwalk
        have hafter := (hgrows.walks hbefore).walk_eq
        rw [← startOf_eq hgrows.workDir_eq path] at hafter
        cases halt with
        | atLink parent target rest => exact absurd hfound (by simp [hwalk])
        | arrived spot =>
            cases spot with
            | self place => exact absurd hfound (by simp [hwalk])
            | child parent name =>
                have hplace : parent ++ [name] = start.locationOf path := hbefore.place_eq
                rw [← hplace] at hend
                rw [hlater.lookUp_missing_iff hpath hafter, hend]
                exact (hstart.lookUp_missing_iff hpath hwalk).mp hmissing
  · obtain ⟨error, _, herror⟩ := resolve_of_not_searchable hpath
    rw [lookUp, herror] at hmissing ⊢
    exact hmissing

/-- What a path shows, or why it does not, stays the same where what is at its end stays. -/
theorem IsPlain.lookUp_eq_later (hstart : start.IsPlain) (hlater : later.IsPlain)
    (hgrows : GrowsTo start later) (hups : start.GoesUpFromDirectories path)
    (hlongs : start.LongNamesInDirectories path)
    (hnew : OnlyDirectoriesNew start later (start.locationOf path))
    (hend : later.entryAt (start.locationOf path) = start.entryAt (start.locationOf path)) :
    later.lookUp true path = start.lookUp true path := by
  cases hl : start.lookUp true path with
  | error error =>
      by_cases hmissing : error = .notFound
      · subst hmissing
        exact hstart.lookUp_missing hlater hgrows hups hlongs hnew hend hl
      · exact hgrows.lookUp_error hl hmissing
  | ok found =>
      obtain ⟨place, entry⟩ := found
      have hplace := hstart.place_of_lookUp hl
      obtain ⟨spot, slash, hr, hspot, hentry, hslash⟩ := lookUp_eq_ok_iff.mp hl
      refine lookUp_eq_ok_iff.mpr ⟨spot, slash, hgrows.resolve_eq hr, hspot, ?_, hslash⟩
      rw [hplace, hend, ← hplace, hentry]

end FileTree

end MediaMigration
