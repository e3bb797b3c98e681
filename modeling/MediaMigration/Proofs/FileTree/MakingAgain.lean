import MediaMigration.Proofs.FileTree.Ahead
import MediaMigration.Proofs.FileTree.Failure

/-!
# Making and opening again

What was made in a tree is there in every tree that this one grows to. To make a way a second time
then goes along what is there, stops where it stopped before and makes nothing. To open a file
again fails as before, or finds the file that was written. So a tree that is worked on a second time
differs from what it was in the contents of files only, and only until each is written for the last
time.
-/

namespace MediaMigration

namespace FileTree

open FilePath

variable {tree later : FileTree} {dir : Location} {path : FilePath}

theorem GrowsTo.exists_entry (h : GrowsTo tree later) {place : Location} {entry : Entry}
    (hentry : tree.entryAt place = some entry) : ∃ other, later.entryAt place = some other := by
  cases entry with
  | directory => exact ⟨_, h.directory_kept place hentry⟩
  | file content => exact ⟨_, (h.file_kept place content hentry).choose_spec⟩
  | link target => exact ⟨_, h.link_kept hentry⟩

/-! ## Making the way again -/

theorem makeWay_again {moves : List String} (h : GrowsTo (tree.makeWay dir moves).2 later) :
    later.makeWay dir moves = ((tree.makeWay dir moves).1, later) := by
  induction moves generalizing tree dir with
  | nil => rfl
  | cons move rest ih =>
      by_cases hup : move = ".."
      · subst hup
        rw [makeWay_up] at h ⊢
        rw [makeWay_up]
        exact ih h
      · by_cases hlong : maxNameBytes < move.utf8ByteSize
        · rw [makeWay_long rest hup hlong, makeWay_long rest hup hlong]
        · cases hentry : tree.entryAt (dir ++ [move]) with
          | none =>
              rw [makeWay_missing rest hup hlong hentry] at h ⊢
              have hmade := (makeWay_adds (tree.put (dir ++ [move]) .directory) (dir ++ [move])
                rest).directory_kept _ (entryAt_put_of_free hentry .directory)
              rw [makeWay_enter rest hup hlong (h.directory_kept _ hmade)]
              exact ih h
          | some entry =>
              have hkept := (makeWay_adds tree dir (move :: rest)).entry_kept hentry
              cases entry with
              | directory =>
                  rw [makeWay_enter rest hup hlong (h.directory_kept _ hkept)]
                  rw [makeWay_enter rest hup hlong hentry] at h ⊢
                  exact ih h
              | file content =>
                  obtain ⟨other, hother⟩ := h.file_kept _ _ hkept
                  rw [makeWay_blocked rest hup hlong hother, makeWay_blocked rest hup hlong hentry]
              | link target =>
                  have hlink := h.link_kept hkept
                  simp only [makeWay_cons, if_neg hup, if_neg hlong, hentry, hlink]

/-- The parent of a path is made with the same result, and nothing is made for it again. -/
theorem IsPlain.makeParent_again (htree : tree.IsPlain) (hlater : later.IsPlain)
    (hups : tree.GoesUpFromDirectories path) (h : GrowsTo (tree.makeParent path).2 later) :
    later.makeParent path = ((tree.makeParent path).1, later) := by
  cases hparent : path.parent? with
  | none => simp only [makeParent, hparent]
  | some parent =>
      have hgrows := (makeParent_adds tree path).toGrowsTo.trans h
      by_cases hsearch : parent.text = "" ∨ IsSearchable parent
      · rw [hlater.makeParent_eq_makeWay hparent hsearch (hups.kept hgrows),
          startOf_eq hgrows.workDir_eq]
        rw [htree.makeParent_eq_makeWay hparent hsearch hups] at h ⊢
        exact makeWay_again h
      · rw [not_or] at hsearch
        obtain ⟨error, herror⟩ := makeParent_of_not_searchable hparent hsearch.1 hsearch.2
        rw [herror, herror]

/-! ## Opening a file again -/

theorem IsPlain.resolve_of_makeParent (h : tree.IsPlain) {before : List String} {last : String}
    (hsteps : path.steps = before ++ [last]) (hlast : IsNameStep last)
    (hups : tree.GoesUpFromDirectories path) (hok : (tree.makeParent path).1 = .ok ())
    (purpose : Purpose) : (tree.makeParent path).2.resolve purpose path ≠ .error .notFound := by
  by_cases hsearch : IsSearchable path
  · have hmade := isPlain_lasts.makeParent h path
    have hmoves : path.moves = path.moves.dropLast ++ [last] := by
      rw [moves_eq_filter_steps, hsteps, List.filter_append]
      simp [hlast.1]
    have hne : path.moves ≠ [] := by
      rw [hmoves]
      simp
    cases hparent : path.parent? with
    | none => exact absurd (moves_of_parent?_eq_none hparent) hne
    | some parent =>
        have hmove : ∀ move ∈ path.moves.dropLast, IsMove move :=
          fun _ hmem => isMove_of_mem_moves (List.dropLast_subset _ hmem)
        have hway := h.makeParent_eq_makeWay hparent (hsearch.parent hparent) hups
        rw [hway] at hok hmade ⊢
        obtain ⟨spot, hwalk, hdirectory⟩ :=
          h.walks_of_makeWay (h.startOf_directory path) hmove hok
        have hshort : ∀ place name, spot = .child place name →
            name.utf8ByteSize ≤ maxNameBytes := by
          rintro place name rfl
          exact (hmade.proper _ _ hdirectory name (by simp [Spot.place])).short
        have hend := hwalk.walk_append hshort hdirectory (List.cons_ne_nil last [])
        rw [walk_last hdirectory hlast, ← hmoves] at hend
        have hstart := (makeWay_adds tree (tree.startOf path) path.moves.dropLast).workDir_eq
        rw [hmade.resolve_eq_walk hsearch, startOf_eq hstart,
          ← hmade.walk_moves (.inr ⟨before, last, hsteps, hlast.1⟩), hend]
        simp only
        split
        · simp
        · split <;> simp
  · obtain ⟨error, hmissing, herror⟩ := resolve_of_not_searchable hsearch
    rw [herror]
    have htext : path.text ≠ "" := text_ne_empty (by simp [hsteps])
    simpa using hmissing htext

/-- Once its parent was made, a path is resolved alike in every tree that this one grows to. -/
theorem GrowsTo.resolve_again (h : GrowsTo tree later) {purpose : Purpose}
    (hthere : tree.resolve purpose path ≠ .error .notFound) :
    later.resolve purpose path = tree.resolve purpose path := by
  cases hr : tree.resolve purpose path with
  | ok found => exact h.resolve_eq hr
  | error error =>
      refine h.resolve_error hr ?_
      rintro rfl
      exact hthere hr

/-- A file that could not be created cannot be created later for the same reason, and one that
could is in the way. -/
theorem GrowsTo.createNew_again (h : GrowsTo tree later)
    (hthere : tree.resolve (.write false) path ≠ .error .notFound) :
    (∃ error, tree.createNew path = .error error ∧ later.createNew path = .error error) ∨
      ∃ place, tree.IsFree path place ∧
        tree.createNew path = .ok (place, tree.put place (.file [])) ∧
        ∀ held, later.entryAt place = some (.file held) →
          later.createNew path = .error .alreadyExists := by
  unfold createNew
  rw [h.resolve_again hthere]
  cases hr : tree.resolve (.write false) path with
  | error error => exact .inl ⟨error, rfl, rfl⟩
  | ok found =>
      match found with
      | (.self place, slash) => exact .inl ⟨_, rfl, rfl⟩
      | (.child parent name, slash) =>
          simp only
          cases hentry : tree.entryAt (parent ++ [name]) with
          | some entry =>
              obtain ⟨other, hother⟩ := h.exists_entry hentry
              simp only [hother]
              exact .inl ⟨_, rfl, rfl⟩
          | none =>
              refine .inr ⟨parent ++ [name], ⟨hentry, parent, name, slash, hr, rfl⟩, rfl, ?_⟩
              intro held hheld
              simp only [hheld]

/-- A file that could not be opened for replacing cannot be opened later for the same reason, and
one that could is opened again. -/
theorem GrowsTo.createOrTruncate_again (h : GrowsTo tree later)
    (hthere : tree.resolve (.write true) path ≠ .error .notFound) :
    (∃ error, tree.createOrTruncate path = .error error ∧
        later.createOrTruncate path = .error error) ∨
      ∃ place, tree.IsWritable path place ∧
        tree.createOrTruncate path = .ok (place, tree.put place (.file [])) ∧
        ∀ held, later.entryAt place = some (.file held) →
          later.createOrTruncate path = .ok (place, later.put place (.file [])) := by
  cases hopened : tree.createOrTruncate path with
  | ok opened =>
      obtain ⟨place, made⟩ := opened
      obtain ⟨hwritable, rfl⟩ := createOrTruncate_ok hopened
      refine .inr ⟨place, hwritable, rfl, fun held hheld => ?_⟩
      unfold createOrTruncate at hopened ⊢
      rw [h.resolve_again hthere]
      cases hr : tree.resolve (.write true) path with
      | error error => simp [hr] at hopened
      | ok found =>
          match found with
          | (.self other, slash) => simp [hr] at hopened
          | (.child parent name, slash) =>
              have hplace : parent ++ [name] = place := by
                rw [hr] at hopened
                simp only at hopened
                split at hopened
                · exact absurd hopened (by simp)
                · exact (Prod.mk.inj (Except.ok.inj hopened)).1
              simp only [hplace, hheld]
  | error error =>
      refine .inl ⟨error, rfl, ?_⟩
      unfold createOrTruncate at hopened ⊢
      rw [h.resolve_again hthere]
      cases hr : tree.resolve (.write true) path with
      | error cause =>
          rw [hr] at hopened
          exact hopened
      | ok found =>
          match found with
          | (.self other, slash) =>
              rw [hr] at hopened
              exact hopened
          | (.child parent name, slash) =>
              rw [hr] at hopened
              simp only at hopened ⊢
              split at hopened
              · next hdirectory =>
                  rw [h.directory_kept _ hdirectory]
                  exact hopened
              · exact absurd hopened (by simp)

/-! ## Catching up -/

/-- A tree in which something is done again that has led to a final tree once, when it has come to
where `tree` was the first time: it is the final one, but for files that have still the contents
that they had then. -/
structure CatchesUp (final tree later : FileTree) : Prop where
  workDir_eq : later.workDir = final.workDir
  entry_eq : ∀ place, later.entries[place]? = final.entries[place]? ∨
    (later.entries[place]? = tree.entries[place]? ∧
      ∃ content, tree.entryAt place = some (.file content))

variable {final next : FileTree}

theorem CatchesUp.refl (final tree : FileTree) : CatchesUp final tree final :=
  ⟨rfl, fun _ => .inl rfl⟩

theorem CatchesUp.eq_final (h : CatchesUp final final later) : later = final := by
  refine FileTree.ext h.workDir_eq fun place => ?_
  rcases h.entry_eq place with hfinal | ⟨hfinal, _⟩
  · exact hfinal
  · exact hfinal

theorem entryAt_eq_of_entries_eq {place : Location}
    (h : later.entries[place]? = tree.entries[place]?) :
    later.entryAt place = tree.entryAt place := by
  rw [entryAt, entryAt, h]

theorem entries_eq_of_file {place : Location} {content : Bytes}
    (h : tree.entryAt place = some (.file content)) :
    tree.entries[place]? = some (.file content) := by
  unfold entryAt at h
  split at h
  · exact absurd h (by simp)
  · exact h

/-- Whatever the first time has come to, it has come to nothing that the tree has not. -/
theorem CatchesUp.growsTo (h : CatchesUp final tree later) (hnext : GrowsTo tree next)
    (hfinal : GrowsTo next final) : GrowsTo next later := by
  have hcases : ∀ place, later.entryAt place = final.entryAt place ∨
      ∃ content other, later.entryAt place = some (.file content) ∧
        next.entryAt place = some (.file other) := by
    intro place
    rcases h.entry_eq place with hsame | ⟨hsame, content, hfile⟩
    · exact .inl (entryAt_eq_of_entries_eq hsame)
    · obtain ⟨other, hother⟩ := hnext.file_kept place content hfile
      exact .inr ⟨content, other, (entryAt_eq_of_entries_eq hsame).trans hfile, hother⟩
  refine ⟨h.workDir_eq.trans hfinal.workDir_eq, ?_, ?_, ?_⟩
  · intro place hdirectory
    rcases hcases place with hsame | ⟨_, _, _, hfile⟩
    · rw [hsame]
      exact hfinal.directory_kept place hdirectory
    · rw [hdirectory] at hfile
      exact absurd hfile (by simp)
  · intro place content hcontent
    rcases hcases place with hsame | ⟨other, _, hfile, _⟩
    · rw [hsame]
      exact hfinal.file_kept place content hcontent
    · exact ⟨other, hfile⟩
  · intro place target
    rcases hcases place with hsame | ⟨_, _, hlater, hfile⟩
    · rw [hsame]
      exact hfinal.link_iff place target
    · rw [hlater, hfile]
      simp

theorem CatchesUp.keptBy (h : CatchesUp final tree later) (hkept : KeptBy tree next) :
    CatchesUp final next later := by
  refine ⟨h.workDir_eq, fun place => ?_⟩
  rcases h.entry_eq place with hsame | ⟨hsame, content, hfile⟩
  · exact .inl hsame
  · have hnext := hkept.content_kept place content hfile
    refine .inr ⟨?_, content, hnext⟩
    rw [hsame, entries_eq_of_file hfile, entries_eq_of_file hnext]

theorem CatchesUp.put (h : CatchesUp final tree later) {place : Location} (hne : place ≠ [])
    (content : Bytes) :
    CatchesUp final (tree.put place (.file content)) (later.put place (.file content)) := by
  refine ⟨h.workDir_eq, fun other => ?_⟩
  rw [getElem?_put, getElem?_put]
  by_cases hsame : place = other
  · refine .inr ⟨by rw [if_pos hsame, if_pos hsame], content, ?_⟩
    rw [entryAt_put tree hne, if_pos hsame]
  · rw [if_neg hsame, if_neg hsame, entryAt_put tree hne, if_neg hsame]
    exact h.entry_eq other

end FileTree

end MediaMigration
