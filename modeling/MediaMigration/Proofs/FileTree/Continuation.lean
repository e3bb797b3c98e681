import MediaMigration.Proofs.FileTree.Ancestors
import MediaMigration.Proofs.FileTree.Descent

/-!
# Paths that go on behind a directory

A path that opens a directory can be continued by more steps, and resolving the longer path is
resolving these steps from the directory, whether that succeeds or fails. No part of such a path
is missing, so none of the directories on its way can be made again. Where nothing below
the directory is a link, names lead to what they name.
-/

namespace MediaMigration

namespace FileTree

variable {tree later : FileTree} {root path : FilePath} {base : Location}

/-! ## Longer walks -/

/-- A walk that has come to a directory goes on from there. -/
theorem Walks.walk_append {dir : Location} {steps more : List String} {spot : Spot}
    (h : Walks tree dir steps (.arrived spot))
    (hshort : ∀ parent name, spot = .child parent name → name.utf8ByteSize ≤ maxNameBytes)
    (hdirectory : tree.entryAt spot.place = some .directory) (hmore : more ≠ []) :
    tree.walk dir (steps ++ more) = tree.walk spot.place more := by
  generalize hhalt : Halt.arrived spot = halt at h
  induction h with
  | stop _ =>
      cases hhalt
      rfl
  | stay _ _ ih =>
      rw [List.cons_append, walk_here]
      exact ih hhalt
  | up hdir _ ih =>
      rw [List.cons_append, walk_up hdir]
      exact ih hhalt
  | last hdir hstep =>
      cases hhalt
      exact walk_enter hdir hstep (hshort _ _ rfl) hmore hdirectory
  | link => exact absurd hhalt (by simp)
  | enter hdir hstep hname hrest hwalk ih =>
      rw [List.cons_append, walk_enter hdir hstep hname (by simp [hrest]) hwalk.directory]
      exact ih hhalt

theorem Walks.walk_append_missing {dir parent : Location} {steps more : List String}
    {name : String} (h : Walks tree dir steps (.arrived (.child parent name)))
    (hshort : name.utf8ByteSize ≤ maxNameBytes)
    (hmissing : tree.entryAt (parent ++ [name]) = none) (hmore : more ≠ []) :
    tree.walk dir (steps ++ more) = .error .notFound := by
  generalize hhalt : Halt.arrived (.child parent name) = halt at h
  induction h with
  | stop _ => exact absurd hhalt (by simp)
  | stay _ _ ih =>
      rw [List.cons_append, walk_here]
      exact ih hhalt
  | up hdir _ ih =>
      rw [List.cons_append, walk_up hdir]
      exact ih hhalt
  | last hdir hstep =>
      cases hhalt
      exact walk_missing hdir hstep hshort hmore hmissing
  | link => exact absurd hhalt (by simp)
  | enter hdir hstep hname hrest hwalk ih =>
      rw [List.cons_append, walk_enter hdir hstep hname (by simp [hrest]) hwalk.directory]
      exact ih hhalt

/-! ## Longer paths -/

theorem locate_eq_of_walk_eq {purpose : Purpose} {dir other : Location}
    {steps more : List String} {slash : Bool}
    (h : tree.walk dir steps = tree.walk other more) (links : Nat) :
    tree.locate purpose links dir steps slash = tree.locate purpose links other more slash := by
  have hwalkTo : tree.walkTo purpose dir steps slash = tree.walkTo purpose other more slash := by
    rw [walkTo, walkTo, h]
  cases links with
  | zero => rw [locate, locate, hwalkTo]
  | succ links => rw [locate, locate, hwalkTo]

theorem locate_of_link {purpose : Purpose} {dir parent : Location} {steps rest : List String}
    {target : String} {slash : Bool} (h : Walks tree dir steps (.atLink parent target rest))
    (htarget : target ≠ "") (hrest : rest ≠ []) (links : Nat) :
    tree.locate purpose (links + 1) dir steps slash =
      tree.locate purpose links (if (FilePath.mk target).isAbsolute then [] else parent)
        ((FilePath.mk target).steps ++ rest) slash := by
  have hhalt : tree.walkTo purpose dir steps slash = .ok (.atLink parent target rest) :=
    walkTo_eq_ok_iff.mpr (.atLink h)
  rw [locate, hhalt]
  simp only [if_neg htarget, if_neg hrest]

theorem Leads.locate_append {links : Nat} {dir : Location} {steps : List String} {slash : Bool}
    {found : Spot × Bool} (h : Leads tree (.see true) links dir steps slash found)
    (hdirectory : tree.entryAt found.1.place = some .directory) :
    ∃ spare, ∀ purpose more ended, more ≠ [] →
      tree.locate purpose links dir (steps ++ more) ended =
        tree.locate purpose spare found.1.place more ended := by
  induction h with
  | @arrive links dir steps slash spot hhalt =>
      refine ⟨links, fun purpose more ended hmore => locate_eq_of_walk_eq ?_ links⟩
      cases hhalt with
      | self hwalk => exact hwalk.walk_append (by simp) hdirectory hmore
      | child hwalk _ hshort _ =>
          refine hwalk.walk_append ?_ hdirectory hmore
          rintro _ _ ⟨⟩
          exact hshort
  | @follow links dir parent steps rest slash target found hhalt htarget _ ih =>
      obtain ⟨spare, hspare⟩ := ih hdirectory
      refine ⟨spare, fun purpose more ended hmore => ?_⟩
      have hlonger : Walks tree dir (steps ++ more) (.atLink parent target (rest ++ more)) := by
        cases hhalt with
        | atLink hwalk => exact hwalk.append_of_link more
        | lastLink hwalk _ hshort _ hlink => exact hwalk.append_at_link hshort hmore hlink
      have hnext : rest ++ more ≠ [] := by simp [hmore]
      rw [locate_of_link hlonger htarget hnext, ← List.append_assoc]
      exact hspare purpose more ended hmore

/-- A path that opens a directory, also for what is put behind it. The empty path opens the
working directory. -/
def OpensAt (tree : FileTree) (root : FilePath) (base : Location) : Prop :=
  tree.entryAt base = some .directory ∧ ∃ spot slash,
    Leads tree (.see true) maxLinks (tree.startOf root) root.steps root.endsWithSlash
      (spot, slash) ∧ spot.place = base

theorem opensAt_of_lookUp (h : tree.lookUp true root = .ok (base, .directory)) :
    tree.OpensAt root base := by
  obtain ⟨spot, slash, hr, hplace, hentry, _⟩ := lookUp_eq_ok_iff.mp h
  exact ⟨hentry, spot, slash, (resolve_eq_ok_iff.mp hr).2, hplace⟩

theorem opensAt_empty (h : tree.entryAt tree.workDir = some .directory) :
    tree.OpensAt ⟨""⟩ tree.workDir :=
  ⟨h, .self tree.workDir, false, .arrive (.self (.stop h)), rfl⟩

theorem OpensAt.lookUp_eq (h : tree.OpensAt root base) (hsearch : IsSearchable root) :
    tree.lookUp true root = .ok (base, .directory) := by
  obtain ⟨hdirectory, spot, slash, hlead, hplace⟩ := h
  exact lookUp_eq_ok_iff.mpr ⟨spot, slash, resolve_eq_ok_iff.mpr ⟨hsearch, hlead⟩, hplace,
    hdirectory, fun hnot => absurd rfl hnot⟩

theorem OpensAt.kept (h : tree.OpensAt root base) (hkeeps : KeepsWays tree later) :
    later.OpensAt root base := by
  obtain ⟨hdirectory, spot, slash, hlead, hplace⟩ := h
  refine ⟨hkeeps.directory_kept base hdirectory, spot, slash, ?_, hplace⟩
  rw [startOf_eq hkeeps.workDir_eq]
  exact hkeeps.leads hlead

/-- Resolving a path that goes on behind a directory is resolving the rest from there. -/
theorem OpensAt.resolve_eq (h : tree.OpensAt root base) :
    ∃ links, ∀ purpose (path : FilePath) more, IsSearchable path →
      path.isAbsolute = root.isAbsolute → path.steps = root.steps ++ more → more ≠ [] →
      tree.resolve purpose path = tree.locate purpose links base more path.endsWithSlash := by
  obtain ⟨hdirectory, spot, slash, hlead, rfl⟩ := h
  obtain ⟨links, hlinks⟩ := hlead.locate_append hdirectory
  refine ⟨links, fun purpose path more hpath habsolute hsteps hmore => ?_⟩
  rw [resolve, if_neg hpath.no_nul, if_neg hpath.not_empty, if_neg (Nat.not_le.mpr hpath.short),
    habsolute, hsteps]
  exact hlinks purpose more path.endsWithSlash hmore

/-! ## Nothing is missing on the way -/

/-- Steps that lead to a free name lead to no directory with more steps behind them. -/
theorem Leads.not_directory_behind {links : Nat} {dir : Location} {steps : List String}
    {slash : Bool} {found : Spot × Bool} (h : Leads tree .name links dir steps slash found)
    (hmissing : tree.entryAt found.1.place = none) {more : List String} {ended : Bool}
    {reached : Spot × Bool}
    (hlonger : Leads tree (.see true) links dir (steps ++ more) ended reached) :
    tree.entryAt reached.1.place ≠ some .directory := by
  induction h generalizing ended with
  | arrive hhalt =>
      cases hhalt with
      | self hwalk =>
          have hthere : tree.entryAt _ = some .directory := hwalk.directory_at_end
          exact absurd (hmissing.symm.trans hthere) (by simp)
      | child hwalk _ hshort _ =>
          by_cases hmore : more = []
          · rw [hmore, List.append_nil] at hlonger
            rw [hlonger.of_walks_child hwalk fun target => ?_, hmissing]
            · simp
            · rw [← Spot.place, hmissing]
              simp
          · obtain ⟨_, hother⟩ := hlonger.walks
            have hnothing := hwalk.walk_append_missing hshort hmissing hmore
            exact absurd (hnothing.symm.trans hother.walk_eq) (by simp)
  | follow hhalt _ _ ih =>
      cases hhalt with
      | lastLink _ _ _ hfollow _ => exact absurd hfollow (by simp [Purpose.follows])
      | atLink hwalk =>
          obtain ⟨_, hfewer, hlead⟩ := hlonger.of_walks_link (hwalk.append_of_link more)
          cases hfewer
          rw [← List.append_assoc] at hlead
          exact ih hmissing hlead

theorem OpensAt.makeDirectory_on_way (h : tree.OpensAt root base)
    (habsolute : path.isAbsolute = root.isAbsolute) (hsteps : path.steps <+: root.steps)
    {made : FileTree} : tree.makeDirectory path ≠ .ok made := by
  intro hmade
  obtain ⟨hdirectory, spot, slash, hlead, rfl⟩ := h
  obtain ⟨more, hmore⟩ := hsteps
  unfold makeDirectory at hmade
  split at hmade
  · exact absurd hmade (by simp)
  · exact absurd hmade (by simp)
  · next dir name ended hr =>
      split at hmade
      · exact absurd hmade (by simp)
      · next hfree =>
          have hname := (resolve_eq_ok_iff.mp hr).2
          rw [habsolute] at hname
          rw [← hmore] at hlead
          exact hname.not_directory_behind hfree hlead hdirectory

/-! ## Names below a directory -/

/-- No link is below a directory. -/
def NoLinkBelow (tree : FileTree) (base : Location) : Prop :=
  ∀ names target, tree.entryAt (base ++ names) ≠ some (.link target)

theorem follow_descending (start : Location) {steps : List String} (h : ".." ∉ steps) :
    follow start steps = start ++ steps.filter fun step => step != "." := by
  rw [← follow_filter]
  refine follow_names start fun step hstep => ?_
  obtain ⟨hmem, hstay⟩ := List.mem_filter.mp hstep
  refine ⟨by simpa using hstay, ?_⟩
  rintro rfl
  exact h hmem

/-- No link is met when steps go down from a directory, not even at their end. -/
def NoLinkOnWay (tree : FileTree) (base : Location) (steps : List String) : Prop :=
  ∀ front target, front <+: (steps.filter fun step => step != ".") →
    tree.entryAt (base ++ front) ≠ some (.link target)

theorem NoLinkBelow.onWay (h : tree.NoLinkBelow base) (steps : List String) :
    tree.NoLinkOnWay base steps :=
  fun front target _ => h front target

theorem IsWellFormed.noLinkOnWay (h : tree.IsWellFormed) {steps : List String} {entry : Entry}
    (hentry : tree.entryAt (base ++ steps.filter fun step => step != ".") = some entry)
    (hlink : ∀ target, entry ≠ .link target) : tree.NoLinkOnWay base steps := by
  intro front target hfront hthere
  by_cases hend : front = steps.filter fun step => step != "."
  · rw [hend, hentry] at hthere
    exact hlink target (Option.some.inj hthere)
  · have hdirectory := h.directory_of_prefix (Option.ne_none_iff_exists'.mpr ⟨entry, hentry⟩)
      ((List.prefix_append_right_inj base).mpr hfront) (by simpa using hend)
    exact absurd (hthere.symm.trans hdirectory) (by simp)

theorem NoLinkOnWay.not_atLink {dir parent : Location} {steps rest : List String}
    {target : String} (h : tree.NoLinkOnWay dir steps) (hdown : ".." ∉ steps) :
    ¬ Walks tree dir steps (.atLink parent target rest) := by
  intro hwalk
  generalize hhalt : Halt.atLink parent target rest = halt at hwalk
  induction hwalk with
  | stop _ => exact absurd hhalt (by simp)
  | stay _ _ ih => exact ih h (fun hmem => hdown (List.mem_cons_of_mem _ hmem)) hhalt
  | up _ _ _ => exact hdown List.mem_cons_self
  | last _ _ => exact absurd hhalt (by simp)
  | @link dir step _ _ _ hstep _ _ hlink =>
      refine h [step] _ ?_ hlink
      rw [List.filter_cons_of_pos (by simpa using hstep.1)]
      exact List.prefix_append [step] _
  | @enter dir step _ _ _ hstep _ _ _ ih =>
      refine ih ?_ (fun hmem => hdown (List.mem_cons_of_mem _ hmem)) hhalt
      intro front target hfront
      rw [List.append_assoc, List.singleton_append]
      refine h (step :: front) target ?_
      rw [List.filter_cons_of_pos (by simpa using hstep.1)]
      exact (List.prefix_append_right_inj [step]).mpr hfront

/-- Steps that go down without a link on their way end where they say. -/
theorem NoLinkOnWay.place_of_locate {steps : List String} (h : tree.NoLinkOnWay base steps)
    {purpose : Purpose} {links : Nat} {slash ended : Bool} {spot : Spot} (hdown : ".." ∉ steps)
    (hl : tree.locate purpose links base steps slash = .ok (spot, ended)) :
    spot.place = base ++ steps.filter fun step => step != "." := by
  have hlead := locate_eq_ok_iff.mp hl
  have hplace : ∀ {spot : Spot}, Walks tree base steps (.arrived spot) →
      spot.place = base ++ steps.filter fun step => step != "." := by
    intro spot hwalk
    rw [hwalk.place_eq, follow_descending base hdown]
  cases hlead with
  | arrive hhalt =>
      cases hhalt with
      | self hwalk => exact hplace hwalk
      | child hwalk _ _ _ => exact hplace hwalk
  | follow hhalt _ _ =>
      cases hhalt with
      | atLink hwalk => exact absurd hwalk (h.not_atLink hdown)
      | lastLink hwalk _ _ _ hlink =>
          have hthere := hplace hwalk
          simp only [Spot.place] at hthere
          rw [hthere] at hlink
          exact absurd hlink (h _ _ (List.prefix_refl _))

theorem OpensAt.place_of_resolve (h : tree.OpensAt root base) {purpose : Purpose}
    {more : List String} {spot : Spot} {ended : Bool} (hlinks : tree.NoLinkOnWay base more)
    (habsolute : path.isAbsolute = root.isAbsolute) (hsteps : path.steps = root.steps ++ more)
    (hmore : more ≠ []) (hdown : ".." ∉ more)
    (hr : tree.resolve purpose path = .ok (spot, ended)) :
    spot.place = base ++ more.filter fun step => step != "." := by
  obtain ⟨links, hlinksEq⟩ := h.resolve_eq
  rw [hlinksEq purpose path more (resolve_eq_ok_iff.mp hr).1 habsolute hsteps hmore] at hr
  exact hlinks.place_of_locate hdown hr

end FileTree

end MediaMigration
