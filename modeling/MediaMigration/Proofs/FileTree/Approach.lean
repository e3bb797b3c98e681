import MediaMigration.Proofs.FileTree.MakingWay

/-!
# The way to what a path shows

A path that is followed to its end comes through directories: each front part of its steps leads
to one, whatever links are met. Where it leads depends neither on a slash behind it nor on the
number of links that may still be followed. For a path that shows something, its parent is there
already, and a look that does not follow the last link stops at the same place or at a link that
leads there.
-/

namespace MediaMigration

namespace FileTree

variable {tree : FileTree} {dir : Location} {steps front more : List String} {slash : Bool}

/-! ## Links and slashes that make no difference -/

theorem Halts.see_any {halt : Halt} (h : Halts tree (.see true) dir steps slash halt)
    (ended : Bool) : Halts tree (.see true) dir steps ended halt := by
  cases h with
  | atLink hwalk => exact .atLink hwalk
  | self hwalk => exact .self hwalk
  | child hwalk _ hshort hlink => exact .child hwalk rfl hshort fun _ => hlink rfl
  | lastLink hwalk _ hshort _ hlink => exact .lastLink hwalk rfl hshort rfl hlink

theorem Halts.see_unique {first second : Halt} {ended : Bool}
    (h : Halts tree (.see true) dir steps slash first)
    (g : Halts tree (.see true) dir steps ended second) : first = second :=
  Except.ok.inj (h.walkTo_eq.symm.trans (g.see_any slash).walkTo_eq)

/-- Steps that are followed to their end lead to one place. -/
theorem Leads.spot_unique {links others : Nat} {first second : Spot × Bool} {ended : Bool}
    (h : Leads tree (.see true) links dir steps slash first)
    (g : Leads tree (.see true) others dir steps ended second) : first.1 = second.1 := by
  induction h generalizing others ended with
  | arrive hhalt =>
      cases g with
      | arrive hother => exact Halt.arrived.inj (hhalt.see_unique hother)
      | follow hother _ _ => exact absurd (hhalt.see_unique hother) (by simp)
  | follow hhalt _ _ ih =>
      cases g with
      | arrive hother => exact absurd (hhalt.see_unique hother) (by simp)
      | follow hother _ hlead =>
          cases hhalt.see_unique hother
          exact ih hlead

theorem Leads.slash_kept {purpose : Purpose} {links : Nat} {found : Spot × Bool}
    (h : Leads tree purpose links dir steps slash found) (hslash : slash = true) :
    found.2 = true := by
  induction h with
  | arrive _ => exact hslash
  | follow _ _ _ ih =>
      apply ih
      split
      · rw [hslash, Bool.true_or]
      · exact hslash

theorem Purpose.not_refused {purpose : Purpose} {ended : Bool}
    (hslash : slash = true → ended = true) (h : purpose.refuses ended = false) :
    purpose.refuses slash = false := by
  cases slash with
  | false => cases purpose <;> rfl
  | true => rwa [hslash rfl] at h

/-! ## Front parts of a path -/

/-- What can be said of a walk from one place can be said of a walk that comes by there. -/
theorem Halts.of_walks {purpose : Purpose} {other : Location} {others : List String}
    {halt : Halt} (hwalks : ∀ halt, Walks tree other others halt → Walks tree dir steps halt)
    (h : Halts tree purpose other others slash halt) : Halts tree purpose dir steps slash halt := by
  cases h with
  | atLink hwalk => exact .atLink (hwalks _ hwalk)
  | self hwalk => exact .self (hwalks _ hwalk)
  | child hwalk hrefuse hshort hlink => exact .child (hwalks _ hwalk) hrefuse hshort hlink
  | lastLink hwalk hrefuse hshort hfollow hlink =>
      exact .lastLink (hwalks _ hwalk) hrefuse hshort hfollow hlink

/-- A walk either comes through a directory after the front part of its steps, or halts at a link
that the front part has to follow. -/
def ComesThrough (tree : FileTree) (dir : Location) (front more : List String) (halt : Halt)
    (slash : Bool) : Prop :=
  (∃ spot, Halts tree (.see true) dir front slash (.arrived spot) ∧
      tree.entryAt spot.place = some .directory ∧ Walks tree spot.place more halt) ∨
    ∃ parent target rest, Halts tree (.see true) dir front slash (.atLink parent target rest) ∧
      halt = .atLink parent target (rest ++ more)

theorem ComesThrough.of_walks {other : Location} {others : List String} {halt : Halt}
    (hwalks : ∀ halt, Walks tree other others halt → Walks tree dir front halt)
    (h : tree.ComesThrough other others more halt slash) :
    tree.ComesThrough dir front more halt slash := by
  obtain ⟨spot, hhalt, hdirectory, hrest⟩ | ⟨parent, target, rest, hhalt, hend⟩ := h
  · exact .inl ⟨spot, hhalt.of_walks hwalks, hdirectory, hrest⟩
  · exact .inr ⟨parent, target, rest, hhalt.of_walks hwalks, hend⟩

theorem Walks.comesThrough {halt : Halt} (h : Walks tree dir (front ++ more) halt)
    (hmore : more ≠ []) (slash : Bool) : tree.ComesThrough dir front more halt slash := by
  induction front generalizing dir with
  | nil => exact .inl ⟨.self dir, .self (.stop h.directory), h.directory, h⟩
  | cons step front ih =>
      rw [List.cons_append] at h
      generalize hall : front ++ more = others at h
      cases h with
      | stay hdir hrest =>
          subst hall
          exact (ih hrest).of_walks fun _ => .stay hdir
      | up hdir hrest =>
          subst hall
          exact (ih hrest).of_walks fun _ => .up hdir
      | last _ _ => exact absurd (List.append_eq_nil_iff.mp hall).2 hmore
      | @link _ _ target _ hdir hstep hshort _ hlink =>
          subst hall
          refine .inr ⟨dir, target, front, ?_, rfl⟩
          by_cases hfront : front = []
          · subst hfront
            exact .lastLink (.last hdir hstep) rfl hshort rfl hlink
          · exact .atLink (.link hdir hstep hshort hfront hlink)
      | enter hdir hstep hshort _ hrest =>
          subst hall
          by_cases hfront : front = []
          · subst hfront
            have hentry := hrest.directory
            refine .inl ⟨.child dir step, .child (.last hdir hstep) rfl hshort ?_, hentry, hrest⟩
            intro _ target hlink
            exact absurd (hentry.symm.trans hlink) (by simp)
          · exact (ih hrest).of_walks fun _ => .enter hdir hstep hshort hfront

/-- On the way to where a path leads there are directories. -/
theorem Leads.front_directory {purpose : Purpose} {links : Nat} {found : Spot × Bool}
    (h : Leads tree purpose links dir (front ++ more) slash found) (hmore : more ≠ [])
    (ended : Bool) :
    ∃ reached, Leads tree (.see true) links dir front ended reached ∧
      tree.entryAt reached.1.place = some .directory := by
  generalize hall : front ++ more = steps at h
  induction h generalizing front ended with
  | @arrive _ dir _ _ _ hhalt =>
      have hwalk : ∃ spot, Walks tree dir (front ++ more) (.arrived spot) := by
        subst hall
        cases hhalt with
        | self hwalk => exact ⟨_, hwalk⟩
        | child hwalk _ _ _ => exact ⟨_, hwalk⟩
      obtain ⟨_, hwalk⟩ := hwalk
      rcases hwalk.comesThrough hmore ended with
        ⟨spot, hfront, hdirectory, _⟩ | ⟨_, _, _, _, hend⟩
      · exact ⟨_, .arrive hfront, hdirectory⟩
      · exact absurd hend (by simp)
  | follow hhalt htarget _ ih =>
      subst hall
      cases hhalt with
      | atLink hwalk =>
          rcases hwalk.comesThrough hmore ended with
            ⟨spot, hfront, hdirectory, _⟩ | ⟨parent, target, rest, hfront, hend⟩
          · exact ⟨_, .arrive hfront, hdirectory⟩
          · -- the link stands in the front part, and its target in front of the rest of that
            cases hend
            obtain ⟨reached, hreached, hdirectory⟩ :=
              ih _ (List.append_assoc _ _ _)
            exact ⟨reached, .follow hfront htarget hreached, hdirectory⟩
      | lastLink hwalk _ _ _ _ =>
          rcases hwalk.comesThrough hmore ended with
            ⟨spot, hfront, hdirectory, _⟩ | ⟨_, _, _, _, hend⟩
          · exact ⟨_, .arrive hfront, hdirectory⟩
          · exact absurd hend (by simp)

theorem Leads.ends_there {links others : Nat} {first second : Spot × Bool} {ended : Bool}
    (h : Leads tree (.see true) links dir front slash first)
    (hother : tree.entryAt first.1.place ≠ some .directory)
    (g : Leads tree (.see true) others dir (front ++ more) ended second) :
    second.1 = first.1 := by
  by_cases hmore : more = []
  · rw [hmore, List.append_nil] at g
    exact g.spot_unique h
  · obtain ⟨reached, hreached, hdirectory⟩ := g.front_directory hmore slash
    rw [hreached.spot_unique h] at hdirectory
    exact absurd hdirectory hother

theorem opensAt_of_resolve {purpose : Purpose} {path root : FilePath} {found : Spot × Bool}
    (hr : tree.resolve purpose path = .ok found) (habsolute : path.isAbsolute = root.isAbsolute)
    (hsteps : path.steps = root.steps ++ more) (hmore : more ≠ []) :
    ∃ base, tree.OpensAt root base := by
  have hlead := (resolve_eq_ok_iff.mp hr).2
  rw [hsteps, habsolute] at hlead
  obtain ⟨reached, hreached, hdirectory⟩ := hlead.front_directory hmore root.endsWithSlash
  exact ⟨_, hdirectory, reached.1, reached.2, hreached, rfl⟩

/-! ## Without following the last link -/

/-- The link of this name leads to a place, perhaps by more links. -/
def LinksTo (tree : FileTree) (outer : Location) (last : String) (place : Location) : Prop :=
  ∃ target links slash found, tree.entryAt (outer ++ [last]) = some (.link target) ∧
    Leads tree (.see true) links (if (FilePath.mk target).isAbsolute then [] else outer)
      (FilePath.mk target).steps slash found ∧ found.1.place = place

/-- Who does not follow the last link stops at the same place, or at a link that leads there. -/
theorem Leads.unfollowed (purpose : Purpose) {links : Nat} {found : Spot × Bool}
    (h : Leads tree (.see true) links dir steps slash found)
    (hfollow : purpose.follows slash = false)
    (hrefuse : purpose.refuses found.2 = false) :
    Leads tree purpose links dir steps slash found ∨
      ∃ outer last, Leads tree purpose links dir steps slash (.child outer last, slash) ∧
        tree.LinksTo outer last found.1.place := by
  induction h with
  | arrive hhalt =>
      left
      cases hhalt with
      | self hwalk => exact .arrive (.self hwalk)
      | child hwalk _ hshort _ =>
          exact .arrive (.child hwalk hrefuse hshort fun h => absurd h (by simp [hfollow]))
  | @follow _ _ _ _ _ slash target _ hhalt htarget hlead ih =>
      cases hhalt with
      | atLink hwalk =>
          have hrest := hwalk.rest_at_link.1
          rw [if_neg hrest] at hlead ih
          rcases ih hfollow hrefuse with hsame | ⟨outer, last, hlink, hleads⟩
          · refine .inl (.follow (.atLink hwalk) htarget ?_)
            rw [if_neg hrest]
            exact hsame
          · refine .inr ⟨outer, last, .follow (.atLink hwalk) htarget ?_, hleads⟩
            rw [if_neg hrest]
            exact hlink
      | @lastLink outer last _ hwalk _ hshort _ hlink =>
          have hhere : purpose.refuses slash = false :=
            Purpose.not_refused (fun h => hlead.slash_kept (by simp [h])) hrefuse
          rw [List.append_nil] at hlead
          refine .inr ⟨_, last, .arrive (.child hwalk hhere hshort ?_),
            target, _, _, _, hlink, hlead, rfl⟩
          exact fun h => absurd h (by simp [hfollow])

/-! ## Nothing has to be made for a path that shows something -/

variable {path : FilePath}

theorem isDirectory_of_resolve {found : Spot × Bool}
    (hr : tree.resolve (.see true) path = .ok found)
    (hdirectory : tree.entryAt found.1.place = some .directory) : tree.isDirectory path = true := by
  have hl : tree.lookUp true path = .ok (found.1.place, .directory) :=
    lookUp_eq_ok_iff.mpr ⟨found.1, found.2, hr, rfl, hdirectory, fun h => absurd rfl h⟩
  rw [isDirectory, hl]

theorem makeDirectory_of_resolve {found : Spot × Bool}
    (hr : tree.resolve (.see true) path = .ok found)
    (hdirectory : tree.entryAt found.1.place = some .directory) :
    tree.makeDirectory path = .error .alreadyExists := by
  obtain ⟨hpath, hlead⟩ := resolve_eq_ok_iff.mp hr
  have htaken : ∃ named, tree.resolve .name path = .ok named ∧
      tree.entryAt named.1.place ≠ none := by
    rcases hlead.unfollowed .name rfl rfl with
      hsame | ⟨outer, last, hlink, target, _, _, _, hentry, _⟩
    · exact ⟨_, resolve_eq_ok_iff.mpr ⟨hpath, hsame⟩, by simp [hdirectory]⟩
    · exact ⟨_, resolve_eq_ok_iff.mpr ⟨hpath, hlink⟩, by simp [Spot.place, hentry]⟩
  obtain ⟨⟨spot, slash⟩, hnamed, hthere⟩ := htaken
  rw [makeDirectory, hnamed]
  cases spot with
  | self place => rfl
  | child outer last =>
      rw [Spot.place] at hthere
      obtain ⟨entry, hentry⟩ := Option.ne_none_iff_exists'.mp hthere
      simp only [hentry]

/-- The directories above what a path leads to are there already. -/
theorem makeParent_of_resolve {purpose : Purpose} {found : Spot × Bool}
    (hr : tree.resolve purpose path = .ok found) (hmoves : path.moves ≠ []) :
    tree.makeParent path = (.ok (), tree) := by
  unfold makeParent
  split
  · next parent hparent =>
      obtain ⟨above, habove⟩ := ancestorsWithin_head parent.text.length parent
      rw [makeDirectoryPath, FilePath.ancestors, habove, makeDirectories]
      by_cases hempty : parent.text = ""
      · rw [if_pos hempty]
      · have hself : parent ∈ parent.ancestors := by simp [FilePath.ancestors, habove]
        obtain ⟨more, hsteps, hnext⟩ := FilePath.steps_of_mem_above hparent hself hmoves
        have habsolute := (FilePath.parent?_eq_some hparent).2
        obtain ⟨hpath, hlead⟩ := resolve_eq_ok_iff.mp hr
        have hsearch := (hpath.parent hparent).resolve_left hempty
        rw [hsteps] at hlead
        obtain ⟨reached, hreached, hdirectory⟩ :=
          hlead.front_directory hnext parent.endsWithSlash
        rw [← habsolute] at hreached
        have hseen : tree.resolve (.see true) parent = .ok reached :=
          resolve_eq_ok_iff.mpr ⟨hsearch, hreached⟩
        rw [if_neg hempty, makeDirectory_of_resolve hseen hdirectory]
        simp only [isDirectory_of_resolve hseen hdirectory, if_true]
  · rfl

theorem resolve_write_of_lookUp {place : Location} {content : Bytes}
    (h : tree.lookUp true path = .ok (place, .file content)) :
    ∃ outer last, tree.resolve (.write true) path = .ok (.child outer last, false) ∧
      outer ++ [last] = place := by
  have hleads : ∀ {links : Nat} {dir : Location} {steps : List String} {slash : Bool}
      {found : Spot × Bool}, Leads tree (.see true) links dir steps slash found →
      found.2 = false → Leads tree (.write true) links dir steps slash found := by
    intro links dir steps slash found hlead hend
    induction hlead with
    | arrive hhalt =>
        cases hhalt with
        | self hwalk => exact .arrive (.self hwalk)
        | child hwalk _ hshort hlink => exact .arrive (.child hwalk hend hshort hlink)
    | @follow _ _ _ _ _ slash _ _ hhalt htarget hlead ih =>
        refine .follow ?_ htarget (ih hend)
        cases hhalt with
        | atLink hwalk => exact .atLink hwalk
        | lastLink hwalk _ hshort hfollow hlink =>
            have hhere : (Purpose.write true).refuses slash = false :=
              Purpose.not_refused (fun h => hlead.slash_kept (by simp [h])) hend
            exact .lastLink hwalk hhere hshort hfollow hlink
  obtain ⟨spot, slash, hr, rfl, hentry, hslash⟩ := lookUp_eq_ok_iff.mp h
  obtain ⟨hpath, hlead⟩ := resolve_eq_ok_iff.mp hr
  obtain rfl := hslash (by simp)
  cases spot with
  | self place => exact absurd (hlead.self_directory.symm.trans hentry) (by simp)
  | child outer last =>
      exact ⟨outer, last, resolve_eq_ok_iff.mpr ⟨hpath, hleads hlead rfl⟩, rfl⟩

theorem createOrTruncate_of_lookUp {place : Location} {content : Bytes}
    (h : tree.lookUp true path = .ok (place, .file content)) :
    tree.createOrTruncate path = .ok (place, tree.put place (.file [])) := by
  have hentry := entryAt_of_lookUp h
  obtain ⟨outer, last, hr, rfl⟩ := resolve_write_of_lookUp h
  rw [createOrTruncate, hr]
  simp only [hentry]

/-! ## Making what is missing on the way -/

theorem opensAt_of_makeDirectory {made : FileTree} (h : tree.makeDirectory path = .ok made) :
    ∃ base, tree.entryAt base = none ∧ made = tree.put base .directory ∧
      made.OpensAt path base := by
  unfold makeDirectory at h
  split at h
  · exact absurd h (by simp)
  · exact absurd h (by simp)
  · next dir name slash hr =>
      split at h
      · exact absurd h (by simp)
      · next hfree =>
          obtain rfl := Except.ok.inj h
          have hthere := entryAt_put_of_free hfree .directory
          have hgrows : GrowsTo tree (tree.put (dir ++ [name]) .directory) :=
            (keptBy_put hfree (by simp)).toGrowsTo
          have hlead := (resolve_eq_ok_iff.mp (hgrows.resolve_eq hr)).2
          refine ⟨dir ++ [name], hfree, rfl, hthere, .child dir name, slash, ?_, rfl⟩
          exact hlead.seen (by simp [Spot.place, hthere])

/-- Of the way to a path nothing had to be made, or what was made begins at a place where nothing
was, and the path goes on down from there. -/
def WayMade (path : FilePath) (tree made : FileTree) : Prop :=
  made = tree ∨ ∃ above base more, path.isAbsolute = above.isAbsolute ∧
    path.steps = above.steps ++ more ∧ more ≠ [] ∧ ".." ∉ more ∧ tree.entryAt base = none ∧
    made.OpensAt above base ∧ made.NoLinkBelow base

variable {root : FilePath} {base place : Location}

theorem WayMade.makeDirectory {made later : FileTree} {other : FilePath}
    (h : WayMade path tree made) (hmade : made.makeDirectory other = .ok later)
    (hfirst : tree.makeDirectory other = .ok later → WayMade path tree later) :
    WayMade path tree later := by
  rcases h with rfl | ⟨above, base, more, habsolute, hsteps, hmore, hdown, hfree, hopens, hlinks⟩
  · exact hfirst hmade
  · have hkept := makeDirectory_adds hmade
    refine .inr ⟨above, base, more, habsolute, hsteps, hmore, hdown, hfree,
      hopens.kept hkept.toGrowsTo.keepsWays, ?_⟩
    exact fun names target hlink => hlinks names target ((hkept.link_iff _ target).mp hlink)

theorem OpensAt.wayMade_first (h : tree.OpensAt root base) (hformed : tree.IsWellFormed)
    (hsteps : path.steps = root.steps ++ more) (hdown : ".." ∉ more) {above : FilePath}
    {rest : List String} (habsolute : above.isAbsolute = root.isAbsolute)
    (hstart : path.isAbsolute = above.isAbsolute) (hrest : path.steps = above.steps ++ rest)
    (hne : rest ≠ []) {made : FileTree} (hmade : tree.makeDirectory above = .ok made) :
    WayMade path tree made := by
  have hroot : ¬ above.steps <+: root.steps := fun hway =>
    h.makeDirectory_on_way habsolute hway hmade
  obtain ⟨between, hbetween⟩ : root.steps <+: above.steps :=
    (List.prefix_or_prefix_of_prefix ⟨more, hsteps.symm⟩ ⟨rest, hrest.symm⟩).resolve_right hroot
  have hmore : more = between ++ rest := by
    rw [hrest, ← hbetween, List.append_assoc] at hsteps
    exact (List.append_cancel_left hsteps).symm
  obtain ⟨new, hfree, rfl, hopens⟩ := opensAt_of_makeDirectory hmade
  refine .inr ⟨above, new, rest, hstart, hrest, hne, ?_, hfree, hopens, ?_⟩
  · exact fun hup => hdown (hmore ▸ List.mem_append_right _ hup)
  · intro names target
    by_cases hnames : names = []
    · rw [hnames, List.append_nil, entryAt_put_of_free hfree]
      simp
    · rw [hformed.missing_below_put hfree hnames]
      simp

theorem OpensAt.wayMade (h : tree.OpensAt root base) (hformed : tree.IsWellFormed)
    (habsolute : path.isAbsolute = root.isAbsolute) (hsteps : path.steps = root.steps ++ more)
    (hdown : ".." ∉ more) (hmoves : path.moves ≠ []) :
    WayMade path tree (tree.makeParent path).2 := by
  unfold makeParent
  split
  · next parent hparent =>
      refine makeDirectories_relates
        (fun first second => WayMade path tree first → WayMade path tree second)
        (fun _ hfirst => hfirst) (fun hfirst hsecond hstart => hsecond (hfirst hstart))
        (fun hmem hmade hbefore => hbefore.makeDirectory hmade fun hfirst => ?_) tree (.inl rfl)
      obtain ⟨_, hsame⟩ := FilePath.segments_of_mem_above hparent hmem
      obtain ⟨rest, hrest, hne⟩ := FilePath.steps_of_mem_above hparent hmem hmoves
      exact h.wayMade_first hformed hsteps hdown (hsame.trans habsolute) hsame.symm hrest hne hfirst
  · exact .inl rfl

/-- A file that is opened for writing after the way to it has been made, and was there before, was
shown by the path before. -/
theorem WayMade.lookUp {made : FileTree} {held : Bytes} (h : WayMade path tree made)
    (hformed : tree.IsWellFormed) (hwritable : made.IsWritable path place)
    (hfile : tree.entryAt place = some (.file held)) :
    tree.lookUp true path = .ok (place, .file held) := by
  obtain ⟨_, dir, name, slash, follow, hr, rfl⟩ := hwritable
  rcases h with rfl | ⟨above, base, more, habsolute, hsteps, hmore, hdown, hfree, hopens, hlinks⟩
  · obtain ⟨hpath, hlead⟩ := resolve_eq_ok_iff.mp hr
    obtain ⟨rfl, hseen⟩ := hlead.seen_of_opened (by simp [hfile])
    exact lookUp_eq_ok_iff.mpr
      ⟨_, false, resolve_eq_ok_iff.mpr ⟨hpath, hseen⟩, rfl, hfile, fun _ => rfl⟩
  · have hplace := hopens.place_of_resolve (hlinks.onWay _) habsolute hsteps hmore hdown hr
    rw [Spot.place] at hplace
    rw [hplace, hformed.missing_below hfree] at hfile
    exact absurd hfile (by simp)

end FileTree

end MediaMigration
