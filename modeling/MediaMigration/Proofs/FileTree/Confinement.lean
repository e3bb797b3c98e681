import MediaMigration.Proofs.FileTree.WellFormed

/-!
# What making the way to a file changes

Before a file is created, the directories that its path needs are made. In a tree without
links, and for a path that goes up from directories only, all of them lie on the way from the
root to the location of the file: a directory off that way is one that the path goes up
from, and that one was there already.
-/

namespace MediaMigration

namespace FileTree

structure SameOutside (allowed : Location → Prop) (tree later : FileTree) : Prop where
  workDir_eq : later.workDir = tree.workDir
  entryAt_eq : ∀ place, ¬ allowed place → later.entryAt place = tree.entryAt place

/-- A place on the way to a location, or below it. -/
def IsNear (root place : Location) : Prop :=
  place <+: root ∨ root <+: place

instance (root place : Location) : Decidable (IsNear root place) :=
  inferInstanceAs (Decidable (place <+: root ∨ root <+: place))

variable {allowed : Location → Prop} {tree middle later : FileTree}

theorem SameOutside.refl (allowed : Location → Prop) (tree : FileTree) :
    SameOutside allowed tree tree :=
  ⟨rfl, fun _ _ => rfl⟩

theorem SameOutside.trans (h : SameOutside allowed tree middle)
    (g : SameOutside allowed middle later) : SameOutside allowed tree later := by
  refine ⟨g.workDir_eq.trans h.workDir_eq, ?_⟩
  intro place hplace
  rw [g.entryAt_eq place hplace, h.entryAt_eq place hplace]

theorem SameOutside.mono {wider : Location → Prop} (h : SameOutside allowed tree later)
    (hwider : ∀ place, allowed place → wider place) : SameOutside wider tree later :=
  ⟨h.workDir_eq, fun place hplace => h.entryAt_eq place fun hallowed => hplace (hwider _ hallowed)⟩

theorem sameOutside_put {place : Location} (hne : place ≠ []) (hplace : allowed place)
    (entry : Entry) : SameOutside allowed tree (tree.put place entry) := by
  refine ⟨rfl, ?_⟩
  intro other hother
  have hdifferent : place ≠ other := by
    rintro rfl
    exact hother hplace
  rw [entryAt_put tree hne, if_neg hdifferent]

/-- Every place on the way to what lies below a location is near it. -/
theorem isNear_of_isPrefix {root below place : Location} (hbelow : root <+: below)
    (h : place <+: below) : IsNear root place :=
  List.prefix_or_prefix_of_prefix h hbelow

theorem not_isNear_below {root dir : Location} (h : ¬ IsNear root dir) (names : Location) :
    ¬ IsNear root (dir ++ names) := by
  rintro (hbelow | habove)
  · exact h (.inl ((List.prefix_append dir names).trans hbelow))
  · rcases List.prefix_or_prefix_of_prefix habove (List.prefix_append dir names) with
      hroot | hdir
    · exact h (.inr hroot)
    · exact h (.inl hdir)

/-! ## Directories on the way -/

theorem IsPlain.makeDirectory_ok (h : tree.IsPlain) {path : FilePath} {made : FileTree}
    (hmade : tree.makeDirectory path = .ok made) :
    tree.entryAt (tree.locationOf path) = none ∧
      made = tree.put (tree.locationOf path) .directory := by
  unfold makeDirectory at hmade
  split at hmade
  · exact absurd hmade (by simp)
  · exact absurd hmade (by simp)
  · next dir name slash hr =>
      have hplace : dir ++ [name] = tree.locationOf path := h.place_of_resolve hr
      rw [hplace] at hmade
      split at hmade
      · exact absurd hmade (by simp)
      · next hfree => exact ⟨hfree, (Except.ok.inj hmade).symm⟩

theorem GoesUpFromDirectories.kept {path : FilePath} (h : tree.GoesUpFromDirectories path)
    (hgrows : GrowsTo tree later) : later.GoesUpFromDirectories path := by
  rw [GoesUpFromDirectories, startOf_eq hgrows.workDir_eq]
  exact UpsExist.kept hgrows.directory_kept h

/-- A path that goes up from directories only goes by places on its way, or by directories. -/
theorem IsWellFormed.directory_or_on_way (h : tree.IsWellFormed) {path above : FilePath}
    (hups : tree.GoesUpFromDirectories path) (hmoves : above.moves <+: path.moves)
    (habsolute : above.isAbsolute = path.isAbsolute) :
    tree.entryAt (tree.locationOf above) = some .directory ∨
      tree.locationOf above <+: tree.locationOf path := by
  obtain ⟨rest, hrest⟩ := hmoves
  have hstart : tree.startOf above = tree.startOf path := by
    rw [startOf, startOf, habsolute]
  rw [GoesUpFromDirectories, ← upsExist_filter, ← FilePath.moves_eq_filter_steps, ← hrest,
    upsExist_append] at hups
  rw [locationOf_eq_follow_moves, locationOf_eq_follow_moves, hstart, ← hrest, follow_append]
  exact h.directory_or_prefix hups.2

/-- Making the parent of a path makes directories on the way to its location only. -/
theorem IsPlain.makeParent_on_way (h : tree.IsPlain) {path : FilePath}
    (hups : tree.GoesUpFromDirectories path) :
    SameOutside (· <+: tree.locationOf path) tree (tree.makeParent path).2 := by
  unfold makeParent
  split
  · next parent hparent =>
      obtain ⟨hparentMoves, hparentAbsolute⟩ := FilePath.parent?_eq_some hparent
      -- what has been made so far is plain, and keeps the directories that were there
      have hstep : ∀ {first made : FileTree} {above : FilePath}, above ∈ parent.ancestors →
          first.makeDirectory above = .ok made → first.IsPlain → KeptBy tree first →
          made.IsPlain ∧ KeptBy tree made ∧
            SameOutside (· <+: tree.locationOf path) first made := by
        intro first made above habove hmade hplain hkept
        obtain ⟨hmoves, habsolute⟩ := FilePath.moves_of_mem_ancestors habove
        rw [hparentMoves] at hmoves
        obtain ⟨hfree, rfl⟩ := hplain.makeDirectory_ok hmade
        have hplace := locationOf_eq hkept.workDir_eq above
        have hway : tree.locationOf above <+: tree.locationOf path := by
          rcases h.toIsWellFormed.directory_or_on_way hups
            (hmoves.trans (List.dropLast_prefix _)) (habsolute.trans hparentAbsolute)
            with hdirectory | hway
          · rw [hplace, hkept.directory_kept _ hdirectory] at hfree
            exact absurd hfree (by simp)
          · exact hway
        refine ⟨isPlain_lasts.makeDirectory hplain hmade,
          hkept.trans (keptBy_put hfree (by simp)), ?_⟩
        rw [hplace] at hfree ⊢
        exact sameOutside_put (ne_root_of_free hfree) hway _
      have hmade := makeDirectories_relates
        (fun first second => first.IsPlain → KeptBy tree first →
          second.IsPlain ∧ KeptBy tree second ∧
            SameOutside (· <+: tree.locationOf path) first second)
        (fun first hplain hkept => ⟨hplain, hkept, .refl _ first⟩)
        (fun hfirst hsecond hplain hkept => by
          obtain ⟨hplain, hkept, hsame⟩ := hfirst hplain hkept
          obtain ⟨hplain, hkept, hnext⟩ := hsecond hplain hkept
          exact ⟨hplain, hkept, hsame.trans hnext⟩)
        hstep tree h (.refl tree)
      exact hmade.2.2
  · exact .refl _ tree

theorem IsPlain.place_of_isWritable (h : tree.IsPlain) {path : FilePath} {place : Location}
    (hwritable : tree.IsWritable path place) : place = tree.locationOf path := by
  obtain ⟨_, dir, name, _, _, hr, rfl⟩ := hwritable
  exact h.place_of_resolve hr

end FileTree

end MediaMigration
