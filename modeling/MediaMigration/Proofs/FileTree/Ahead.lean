import MediaMigration.Proofs.FileTree.MakingWay

/-!
# Trees that are ahead of others

Of two trees one may be ahead of the other: it has directories on the way to a place that the other
has still to make, and what lies elsewhere may have grown, but below one name at that place
the two are the same. Whatever is done below that name is done alike in both, with the same result,
and they stay alike there: to make a directory that the one has already takes nothing from it.
-/

namespace MediaMigration

namespace FileTree

open FilePath

/-- A later tree has grown, but below a name at a place it is the same, and on the way to that
place nothing but directories is new. -/
structure IsAhead (base : Location) (name : String) (tree later : FileTree) : Prop where
  grows : GrowsTo tree later
  on_way : ∀ place, place <+: base → later.entryAt place = tree.entryAt place ∨
    (tree.entryAt place = none ∧ later.entryAt place = some .directory)
  below : ∀ names, later.entryAt (base ++ name :: names) = tree.entryAt (base ++ name :: names)

variable {base dir : Location} {name : String} {tree later last : FileTree} {path : FilePath}

theorem IsAhead.refl (base : Location) (name : String) (tree : FileTree) :
    IsAhead base name tree tree :=
  ⟨(KeptBy.refl tree).toGrowsTo, fun _ _ => .inl rfl, fun _ => rfl⟩

theorem IsAhead.trans (h : IsAhead base name tree later) (g : IsAhead base name later last) :
    IsAhead base name tree last := by
  refine ⟨h.grows.trans g.grows, ?_, fun names => (g.below names).trans (h.below names)⟩
  intro place hplace
  rcases h.on_way place hplace with hsame | ⟨hnone, hdirectory⟩
  · rcases g.on_way place hplace with hagain | ⟨hfree, hmade⟩
    · exact .inl (hagain.trans hsame)
    · exact .inr ⟨hsame.symm.trans hfree, hmade⟩
  · exact .inr ⟨hnone, g.grows.directory_kept place hdirectory⟩

/-! ## The same entry in both -/

theorem GrowsTo.put (h : GrowsTo tree later) {place : Location} (hne : place ≠ []) (entry : Entry) :
    GrowsTo (tree.put place entry) (later.put place entry) := by
  have hentry : ∀ (tree : FileTree) other, (tree.put place entry).entryAt other =
      if place = other then some entry else tree.entryAt other :=
    fun tree other => entryAt_put tree hne other entry
  refine ⟨h.workDir_eq, ?_, ?_, ?_⟩
  · intro other hother
    rw [hentry] at hother ⊢
    split
    · next hsame =>
        rw [if_pos hsame] at hother
        exact hother
    · next hsame =>
        rw [if_neg hsame] at hother
        exact h.directory_kept other hother
  · intro other content hother
    rw [hentry] at hother
    split at hother
    · next hsame =>
        refine ⟨content, ?_⟩
        rw [hentry, if_pos hsame]
        exact hother
    · next hsame =>
        obtain ⟨bytes, hbytes⟩ := h.file_kept other content hother
        refine ⟨bytes, ?_⟩
        rw [hentry, if_neg hsame]
        exact hbytes
  · intro other target
    rw [hentry, hentry]
    split
    · exact Iff.rfl
    · exact h.link_iff other target

theorem IsAhead.put (h : IsAhead base name tree later) {place : Location} (hne : place ≠ [])
    (entry : Entry) : IsAhead base name (tree.put place entry) (later.put place entry) := by
  refine ⟨h.grows.put hne entry, ?_, ?_⟩
  · intro other hother
    rw [entryAt_put tree hne, entryAt_put later hne]
    split
    · exact .inl rfl
    · exact h.on_way other hother
  · intro names
    rw [entryAt_put tree hne, entryAt_put later hne, h.below names]

theorem IsAhead.put_behind (h : IsAhead base name tree later) {place : Location}
    (hplace : place <+: base) (hfree : tree.entryAt place = none)
    (hthere : later.entryAt place = some .directory) :
    IsAhead base name (tree.put place .directory) later := by
  have hne := ne_root_of_free hfree
  have hentry : ∀ other, (tree.put place .directory).entryAt other =
      if place = other then some .directory else tree.entryAt other :=
    fun other => entryAt_put tree hne other .directory
  refine ⟨⟨h.grows.workDir_eq, ?_, ?_, ?_⟩, ?_, ?_⟩
  · intro other hother
    rw [hentry] at hother
    split at hother
    · next hsame => exact hsame ▸ hthere
    · exact h.grows.directory_kept other hother
  · intro other content hother
    rw [hentry] at hother
    split at hother
    · exact absurd hother (by simp)
    · exact h.grows.file_kept other content hother
  · intro other target
    rw [hentry]
    split
    · next hsame =>
        rw [← hsame, hthere]
    · exact h.grows.link_iff other target
  · intro other hother
    rw [hentry]
    split
    · next hsame => exact .inl (hsame ▸ hthere)
    · exact h.on_way other hother
  · intro names
    have hbelow : place ≠ base ++ name :: names := by
      rintro rfl
      have hlength := hplace.length_le
      rw [List.length_append, List.length_cons] at hlength
      omega
    rw [hentry, if_neg hbelow]
    exact h.below names

/-! ## Making the way in both -/

theorem isPrefix_or_below {place : Location} {names : Location}
    (h : place <+: base ++ name :: names) :
    place <+: base ∨ ∃ more, place = base ++ name :: more := by
  rcases List.prefix_or_prefix_of_prefix h (List.prefix_append base (name :: names)) with
    habove | ⟨more, rfl⟩
  · exact .inl habove
  · cases more with
    | nil => exact .inl (by simp)
    | cons first rest =>
        right
        have hrest := (List.prefix_append_right_inj base).mp h
        obtain ⟨rfl, _⟩ := List.cons_prefix_cons.mp hrest
        exact ⟨rest, rfl⟩

/-- What is missing on the way to something below the name is missing in the tree that is ahead as
well, or is a directory there on the way to the name. -/
theorem IsAhead.missing_cases (h : IsAhead base name tree later) {place names : Location}
    (hmissing : tree.entryAt place = none) (hway : place <+: base ++ name :: names) :
    later.entryAt place = none ∨
      place <+: base ∧ later.entryAt place = some .directory := by
  rcases isPrefix_or_below hway with habove | ⟨more, rfl⟩
  · rcases h.on_way _ habove with hsame | ⟨_, hdirectory⟩
    · exact .inl (hsame.trans hmissing)
    · exact .inr ⟨habove, hdirectory⟩
  · left
    rw [h.below, hmissing]

theorem IsAhead.makeWay (h : IsAhead base name tree later) (htree : tree.IsPlain)
    (hlater : later.IsPlain) {moves : List String} (hdir : tree.entryAt dir = some .directory)
    (hmoves : ∀ move ∈ moves, IsMove move) (hups : tree.UpsExist dir moves) {names : Location}
    (hend : follow dir moves = base ++ name :: names) :
    (later.makeWay dir moves).1 = (tree.makeWay dir moves).1 ∧
      IsAhead base name (tree.makeWay dir moves).2 (later.makeWay dir moves).2 := by
  induction moves generalizing tree later dir with
  | nil => exact ⟨rfl, h⟩
  | cons move rest ih =>
      have hfirst := hmoves move List.mem_cons_self
      have hothers : ∀ move ∈ rest, IsMove move :=
        fun other hother => hmoves other (List.mem_cons_of_mem _ hother)
      have hlaterDir := h.grows.directory_kept dir hdir
      rw [UpsExist, if_neg hfirst.not_here] at hups
      rw [follow, if_neg hfirst.not_here] at hend
      by_cases hup : move = ".."
      · subst hup
        rw [if_pos rfl] at hups hend
        rw [makeWay_up, makeWay_up]
        exact ih h htree hlater (htree.toIsWellFormed.directory_dropLast hdir) hothers hups.2 hend
      · rw [if_neg hup] at hups hend
        by_cases hlong : maxNameBytes < move.utf8ByteSize
        · rw [makeWay_long rest hup hlong, makeWay_long rest hup hlong]
          exact ⟨rfl, h⟩
        · cases hentry : tree.entryAt (dir ++ [move]) with
          | some entry =>
              cases entry with
              | link target => exact absurd hentry (htree.no_link _ target)
              | file content =>
                  obtain ⟨other, hother⟩ := h.grows.file_kept _ _ hentry
                  rw [makeWay_blocked rest hup hlong hentry, makeWay_blocked rest hup hlong hother]
                  exact ⟨rfl, h⟩
              | directory =>
                  have hthere := h.grows.directory_kept _ hentry
                  rw [makeWay_enter rest hup hlong hentry, makeWay_enter rest hup hlong hthere]
                  exact ih h htree hlater hentry hothers hups hend
          | none =>
              have hmade := htree.put_move hdir hfirst hup hlong hentry
              have hnewDir := entryAt_put_of_free hentry .directory
              have hnewUps := hups.kept (onlyDirectoriesAdded_put hentry).directory_kept
              -- the missing directory lies on the way to the end of the moves
              have hway : dir ++ [move] <+: base ++ name :: names := by
                rcases htree.toIsWellFormed.directory_or_prefix hups with hdirectory | hway
                · rw [hentry] at hdirectory
                  exact absurd hdirectory (by simp)
                · rw [hend] at hway
                  exact hway
              rw [makeWay_missing rest hup hlong hentry]
              rcases h.missing_cases hentry hway with hfree | ⟨habove, hthere⟩
              · rw [makeWay_missing rest hup hlong hfree]
                exact ih (h.put (by simp) .directory) hmade
                  (hlater.put_move hlaterDir hfirst hup hlong hfree) hnewDir hothers hnewUps hend
              · rw [makeWay_enter rest hup hlong hthere]
                exact ih (h.put_behind habove hentry hthere) hmade hlater hnewDir hothers hnewUps
                  hend

/-! ## Opening a file in both -/

/-- Going down from a directory depends on what is below it only. -/
theorem IsPlain.walk_eq_below (htree : tree.IsPlain) (hlater : later.IsPlain)
    (hsame : ∀ names, later.entryAt (dir ++ names) = tree.entryAt (dir ++ names))
    {steps : List String} (hdown : ".." ∉ steps) : later.walk dir steps = tree.walk dir steps := by
  induction steps generalizing dir with
  | nil =>
      have hhere := hsame []
      rw [List.append_nil] at hhere
      rw [walk, walk, requireDirectory, requireDirectory, hhere]
  | cons step rest ih =>
      rw [List.mem_cons, not_or] at hdown
      by_cases hdot : step = "."
      · rw [hdot, walk_here, walk_here]
        exact ih hsame hdown.2
      · have hhere := hsame []
        rw [List.append_nil] at hhere
        have hrequire : later.requireDirectory dir = tree.requireDirectory dir := by
          rw [requireDirectory, requireDirectory, hhere]
        cases hdir : tree.requireDirectory dir with
        | error error =>
            rw [walk_of_not_directory hdir, walk_of_not_directory (hrequire.trans hdir)]
        | ok _ =>
            have hthere := requireDirectory_ok_iff.mp hdir
            have hlaterThere := requireDirectory_ok_iff.mp (hrequire.trans hdir)
            have hstep : IsNameStep step := ⟨hdot, Ne.symm hdown.1⟩
            by_cases hrest : rest = []
            · rw [hrest, walk_last hthere hstep, walk_last hlaterThere hstep]
            · by_cases hlong : maxNameBytes < step.utf8ByteSize
              · rw [walk_long hthere hstep hrest hlong, walk_long hlaterThere hstep hrest hlong]
              · rw [htree.walk_name hthere hstep hrest hlong,
                  hlater.walk_name hlaterThere hstep hrest hlong]
                refine ih (fun names => ?_) hdown.2
                rw [List.append_assoc]
                exact hsame _

/-- A path that goes up from directories only and ends below a name at a place, with some names
behind it and a last one. -/
structure EndsBelow (tree : FileTree) (base : Location) (name : String) (names : List String)
    (last : String) (path : FilePath) : Prop where
  goes_up : tree.GoesUpFromDirectories path
  by_names : ∀ step ∈ name :: (names ++ [last]), IsNameStep step
  from_base : ∃ front, path.moves = front ++ name :: names ++ [last] ∧
    follow (tree.startOf path) front = base

namespace EndsBelow

variable {names : List String} {final : String} {parent : FilePath}

theorem kept (h : tree.EndsBelow base name names final path) (hgrows : GrowsTo tree later) :
    later.EndsBelow base name names final path := by
  obtain ⟨front, hmoves, hfront⟩ := h.from_base
  rw [← startOf_eq hgrows.workDir_eq] at hfront
  exact ⟨h.goes_up.kept hgrows, h.by_names, front, hmoves, hfront⟩

theorem locationOf_eq (h : tree.EndsBelow base name names final path) :
    tree.locationOf path = base ++ name :: (names ++ [final]) := by
  obtain ⟨front, hmoves, hfront⟩ := h.from_base
  rw [locationOf_eq_follow_moves, hmoves, List.append_assoc, List.cons_append, follow_append,
    hfront, follow_names _ h.by_names]

theorem exists_parent (h : tree.EndsBelow base name names final path) :
    ∃ parent, path.parent? = some parent := by
  obtain ⟨front, hmoves, _⟩ := h.from_base
  cases hparent : path.parent? with
  | some parent => exact ⟨parent, rfl⟩
  | none =>
      rw [moves_of_parent?_eq_none hparent] at hmoves
      exact absurd hmoves.symm (by simp)

theorem follow_dropLast (h : tree.EndsBelow base name names final path) :
    follow (tree.startOf path) path.moves.dropLast = base ++ name :: names := by
  obtain ⟨front, hmoves, hfront⟩ := h.from_base
  have hdown : ∀ step ∈ name :: names, IsNameStep step := by
    intro step hstep
    apply h.by_names step
    rw [← List.cons_append]
    exact List.mem_append_left _ hstep
  rw [hmoves, List.dropLast_concat, follow_append, hfront, follow_names _ hdown]

theorem locationOf_parent (h : tree.EndsBelow base name names final path)
    (hparent : path.parent? = some parent) : tree.locationOf parent = base ++ name :: names := by
  obtain ⟨hmoves, habsolute⟩ := parent?_eq_some hparent
  rw [locationOf_eq_follow_moves, hmoves, startOf, habsolute, ← startOf]
  exact h.follow_dropLast

theorem rest_of_parent (h : tree.EndsBelow base name names final path)
    (hparent : path.parent? = some parent) :
    ∃ more, path.steps = parent.steps ++ more ∧ more ≠ [] ∧ ".." ∉ more := by
  obtain ⟨front, hmoves, _⟩ := h.from_base
  obtain ⟨more, hsteps, hmore⟩ := steps_of_parent hparent
  have hrest : (more.filter fun step => step != ".") = [final] := by
    rw [(parent?_eq_some hparent).1, hmoves, List.dropLast_concat] at hmore
    exact (List.append_cancel_left hmore).symm
  refine ⟨more, hsteps, ?_, ?_⟩
  · rintro rfl
    exact absurd hrest (by simp)
  · intro hup
    have hmem : ".." ∈ more.filter fun step => step != "." :=
      List.mem_filter.mpr ⟨hup, by decide⟩
    rw [hrest, List.mem_singleton] at hmem
    exact (h.by_names final (by simp)).2 hmem.symm

end EndsBelow

section Opening

variable {names : List String} {final : String}

theorem IsAhead.makeParent_way (h : IsAhead base name tree later) (htree : tree.IsPlain)
    (hlater : later.IsPlain) (hpath : tree.EndsBelow base name names final path) :
    (later.makeWay (tree.startOf path) path.moves.dropLast).1 =
        (tree.makeWay (tree.startOf path) path.moves.dropLast).1 ∧
      IsAhead base name (tree.makeWay (tree.startOf path) path.moves.dropLast).2
        (later.makeWay (tree.startOf path) path.moves.dropLast).2 := by
  have hups := hpath.goes_up
  rw [GoesUpFromDirectories, ← upsExist_filter, ← moves_eq_filter_steps] at hups
  obtain ⟨more, hmore⟩ := List.dropLast_prefix path.moves
  rw [← hmore, upsExist_append] at hups
  have hmove : ∀ move ∈ path.moves.dropLast, IsMove move :=
    fun _ hmem => isMove_of_mem_moves (List.dropLast_subset _ hmem)
  exact h.makeWay htree hlater (htree.startOf_directory path) hmove hups.1 hpath.follow_dropLast

/-- The parent of a path that ends below the name is made alike. -/
theorem IsAhead.makeParent (h : IsAhead base name tree later) (htree : tree.IsPlain)
    (hlater : later.IsPlain) (hpath : tree.EndsBelow base name names final path) :
    (later.makeParent path).1 = (tree.makeParent path).1 ∧
      IsAhead base name (tree.makeParent path).2 (later.makeParent path).2 := by
  obtain ⟨parent, hparent⟩ := hpath.exists_parent
  by_cases hsearch : parent.text = "" ∨ IsSearchable parent
  · rw [htree.makeParent_eq_makeWay hparent hsearch hpath.goes_up,
      hlater.makeParent_eq_makeWay hparent hsearch (hpath.goes_up.kept h.grows),
      startOf_eq h.grows.workDir_eq]
    exact h.makeParent_way htree hlater hpath
  · have hboth := not_or.mp hsearch
    obtain ⟨error, herror⟩ := makeParent_of_not_searchable hparent hboth.1 hboth.2
    rw [herror, herror]
    exact ⟨rfl, h⟩

theorem IsAhead.resolve_of_makeParent (h : IsAhead base name tree later) (htree : tree.IsPlain)
    (hlater : later.IsPlain) (hpath : tree.EndsBelow base name names final path)
    (hok : (tree.makeParent path).1 = .ok ()) (purpose : Purpose) :
    (later.makeParent path).2.resolve purpose path =
      (tree.makeParent path).2.resolve purpose path := by
  by_cases hsearch : IsSearchable path
  · obtain ⟨parent, hparent⟩ := hpath.exists_parent
    obtain ⟨more, hsteps, hmore, hdown⟩ := hpath.rest_of_parent hparent
    obtain ⟨hresult, hahead⟩ := h.makeParent htree hlater hpath
    have hmade := isPlain_lasts.makeParent htree path
    have hlaterMade := isPlain_lasts.makeParent hlater path
    have hlaterUps := hpath.goes_up.kept h.grows
    have habove := (hsearch.parent hparent)
    have hwalk := htree.walk_of_makeParent hparent habove hpath.goes_up hok hsteps hmore
    have hlaterWalk := hlater.walk_of_makeParent hparent habove hlaterUps (hresult.trans hok)
      hsteps hmore
    have hsame : ∀ others : Location,
        (later.makeParent path).2.entryAt (base ++ name :: names ++ others) =
          (tree.makeParent path).2.entryAt (base ++ name :: names ++ others) := by
      intro others
      rw [List.append_assoc, List.cons_append]
      exact hahead.below _
    rw [hpath.locationOf_parent hparent] at hwalk
    rw [(hpath.kept h.grows).locationOf_parent hparent,
      hmade.walk_eq_below hlaterMade hsame hdown] at hlaterWalk
    rw [hmade.resolve_eq_walk hsearch, hlaterMade.resolve_eq_walk hsearch,
      startOf_eq (makeParent_adds tree path).workDir_eq,
      startOf_eq (makeParent_adds later path).workDir_eq, hlaterWalk, hwalk]
  · obtain ⟨error, _, herror⟩ := resolve_of_not_searchable hsearch
    rw [herror, herror]

/-- A file that is opened for writing, as a new one or in place of an old one. -/
def openFile (tree : FileTree) (overwrite : Bool) (path : FilePath) :
    Except IoError (Location × FileTree) :=
  if overwrite then tree.createOrTruncate path else tree.createNew path

theorem IsAhead.openFile (h : IsAhead base name tree later) (htree : tree.IsPlain)
    (hplace : tree.locationOf path = base ++ name :: names)
    (hresolve : ∀ purpose, later.resolve purpose path = tree.resolve purpose path)
    (overwrite : Bool) :
    (∃ error, tree.openFile overwrite path = .error error ∧
        later.openFile overwrite path = .error error) ∨
      tree.openFile overwrite path =
          .ok (base ++ name :: names, tree.put (base ++ name :: names) (.file [])) ∧
        later.openFile overwrite path =
          .ok (base ++ name :: names, later.put (base ++ name :: names) (.file [])) := by
  have hentry := h.below names
  cases overwrite with
  | false =>
      simp only [FileTree.openFile, Bool.false_eq_true, if_false]
      rw [createNew, createNew, hresolve]
      cases hr : tree.resolve (.write false) path with
      | error error => exact .inl ⟨error, rfl, rfl⟩
      | ok found =>
          match found with
          | (.self place, slash) => exact .inl ⟨_, rfl, rfl⟩
          | (.child dir last, slash) =>
              have hchild : dir ++ [last] = base ++ name :: names :=
                (htree.place_of_resolve hr).trans hplace
              simp only [hchild, hentry]
              cases tree.entryAt (base ++ name :: names) with
              | none => exact .inr ⟨rfl, rfl⟩
              | some entry => exact .inl ⟨_, rfl, rfl⟩
  | true =>
      simp only [FileTree.openFile, if_true]
      rw [createOrTruncate, createOrTruncate, hresolve]
      cases hr : tree.resolve (.write true) path with
      | error error => exact .inl ⟨error, rfl, rfl⟩
      | ok found =>
          match found with
          | (.self place, slash) => exact .inl ⟨_, rfl, rfl⟩
          | (.child dir last, slash) =>
              have hchild : dir ++ [last] = base ++ name :: names :=
                (htree.place_of_resolve hr).trans hplace
              simp only [hchild, hentry]
              cases tree.entryAt (base ++ name :: names) with
              | none => exact .inr ⟨rfl, rfl⟩
              | some entry =>
                  cases entry with
                  | directory => exact .inl ⟨_, rfl, rfl⟩
                  | file content => exact .inr ⟨rfl, rfl⟩
                  | link target => exact .inr ⟨rfl, rfl⟩

end Opening

end FileTree

end MediaMigration
