import Mathlib.Data.List.Induction
import MediaMigration.Proofs.FileTree.Creation
import MediaMigration.Proofs.FileTree.Path

/-!
# Locations that can be read off a path

In a tree without links a path leads where its steps say, whatever else is in the tree: a
name goes down, `..` goes up. Only whether it gets there depends on the entries on the way.
Those on the way down are directories because something is below them, so a path that goes
up from directories only gets to whatever is at its location.
-/

namespace MediaMigration

namespace FileTree

def follow (start : Location) : List String → Location
  | [] => start
  | step :: rest =>
      if step = "." then follow start rest
      else if step = ".." then follow start.dropLast rest
      else follow (start ++ [step]) rest

def startOf (tree : FileTree) (path : FilePath) : Location :=
  if path.isAbsolute then [] else tree.workDir

/-- The location that a path says. -/
def locationOf (tree : FileTree) (path : FilePath) : Location :=
  follow (tree.startOf path) path.steps

/-- Every `..` among the steps goes up from a directory of the tree. -/
def UpsExist (tree : FileTree) : Location → List String → Prop
  | _, [] => True
  | dir, step :: rest =>
      if step = "." then tree.UpsExist dir rest
      else if step = ".." then
        tree.entryAt dir = some .directory ∧ tree.UpsExist dir.dropLast rest
      else tree.UpsExist (dir ++ [step]) rest

instance decidableUpsExist (tree : FileTree) :
    (dir : Location) → (steps : List String) → Decidable (tree.UpsExist dir steps)
  | _, [] => isTrue trivial
  | dir, step :: rest =>
      have := decidableUpsExist tree dir rest
      have := decidableUpsExist tree dir.dropLast rest
      have := decidableUpsExist tree (dir ++ [step]) rest
      inferInstanceAs (Decidable (if step = "." then tree.UpsExist dir rest
        else if step = ".." then
          tree.entryAt dir = some .directory ∧ tree.UpsExist dir.dropLast rest
        else tree.UpsExist (dir ++ [step]) rest))

/-- A path that goes up from directories of the tree only. -/
def GoesUpFromDirectories (tree : FileTree) (path : FilePath) : Prop :=
  tree.UpsExist (tree.startOf path) path.steps

instance (tree : FileTree) (path : FilePath) : Decidable (tree.GoesUpFromDirectories path) :=
  decidableUpsExist tree (tree.startOf path) path.steps

structure IsProperName (name : String) : Prop where
  not_empty : name ≠ ""
  is_step : IsNameStep name
  no_slash : '/' ∉ name.toList
  short : name.utf8ByteSize ≤ maxNameBytes

/-- Every entry has a proper name and lies in a directory, and the working directory is
there. -/
structure IsWellFormed (tree : FileTree) : Prop where
  proper : ∀ place entry, tree.entryAt place = some entry → ∀ name ∈ place, IsProperName name
  parent : ∀ place name, tree.entryAt (place ++ [name]) ≠ none →
    tree.entryAt place = some .directory
  workDir : tree.entryAt tree.workDir = some .directory

/-- A tree of directories and regular files. -/
structure IsPlain (tree : FileTree) : Prop extends IsWellFormed tree where
  no_link : ∀ place target, tree.entryAt place ≠ some (.link target)

variable {tree later : FileTree}

/-! ## Following steps -/

theorem follow_append (start : Location) (first second : List String) :
    follow start (first ++ second) = follow (follow start first) second := by
  induction first generalizing start with
  | nil => rfl
  | cons step rest ih =>
      rw [List.cons_append, follow, follow]
      by_cases hdot : step = "."
      · rw [if_pos hdot, if_pos hdot, ih]
      · rw [if_neg hdot, if_neg hdot]
        by_cases hup : step = ".."
        · rw [if_pos hup, if_pos hup, ih]
        · rw [if_neg hup, if_neg hup, ih]

theorem follow_filter (start : Location) (steps : List String) :
    follow start (steps.filter fun step => step != ".") = follow start steps := by
  induction steps generalizing start with
  | nil => rfl
  | cons step rest ih =>
      by_cases hdot : step = "."
      · rw [List.filter_cons_of_neg (by simp [hdot]), ih, follow, if_pos hdot]
      · rw [List.filter_cons_of_pos (by simp [hdot]), follow, follow, if_neg hdot, if_neg hdot]
        by_cases hup : step = ".."
        · rw [if_pos hup, if_pos hup, ih]
        · rw [if_neg hup, if_neg hup, ih]

theorem upsExist_append {start : Location} {first second : List String} :
    tree.UpsExist start (first ++ second) ↔
      tree.UpsExist start first ∧ tree.UpsExist (follow start first) second := by
  induction first generalizing start with
  | nil => simp [UpsExist, follow]
  | cons step rest ih =>
      rw [List.cons_append, UpsExist, UpsExist, follow]
      by_cases hdot : step = "."
      · simp only [if_pos hdot]
        exact ih
      · simp only [if_neg hdot]
        by_cases hup : step = ".."
        · simp only [if_pos hup]
          rw [ih, and_assoc]
        · simp only [if_neg hup]
          exact ih

theorem upsExist_filter {start : Location} {steps : List String} :
    tree.UpsExist start (steps.filter fun step => step != ".") ↔ tree.UpsExist start steps := by
  induction steps generalizing start with
  | nil => rfl
  | cons step rest ih =>
      by_cases hdot : step = "."
      · rw [List.filter_cons_of_neg (by simp [hdot]), ih, UpsExist, if_pos hdot]
      · rw [List.filter_cons_of_pos (by simp [hdot]), UpsExist, UpsExist, if_neg hdot,
          if_neg hdot]
        by_cases hup : step = ".."
        · rw [if_pos hup, if_pos hup, ih]
        · rw [if_neg hup, if_neg hup, ih]

theorem UpsExist.kept {start : Location} {steps : List String}
    (hkept : ∀ place, tree.entryAt place = some .directory →
      later.entryAt place = some .directory) (h : tree.UpsExist start steps) :
    later.UpsExist start steps := by
  induction steps generalizing start with
  | nil => trivial
  | cons step rest ih =>
      rw [UpsExist] at h ⊢
      by_cases hdot : step = "."
      · rw [if_pos hdot] at h ⊢
        exact ih h
      · rw [if_neg hdot] at h ⊢
        by_cases hup : step = ".."
        · rw [if_pos hup] at h ⊢
          exact ⟨hkept _ h.1, ih h.2⟩
        · rw [if_neg hup] at h ⊢
          exact ih h

theorem locationOf_eq_follow_moves (tree : FileTree) (path : FilePath) :
    tree.locationOf path = follow (tree.startOf path) path.moves := by
  rw [FilePath.moves_eq_filter_steps, follow_filter]
  rfl

theorem startOf_eq (hworkDir : later.workDir = tree.workDir) (path : FilePath) :
    later.startOf path = tree.startOf path := by
  rw [startOf, startOf, hworkDir]

theorem locationOf_eq (hworkDir : later.workDir = tree.workDir) (path : FilePath) :
    later.locationOf path = tree.locationOf path := by
  rw [locationOf, locationOf, startOf_eq hworkDir]

theorem startOf_join {base next : FilePath} (hnext : next.isAbsolute = false) :
    tree.startOf (base.join next) = tree.startOf base := by
  rw [startOf, startOf, FilePath.isAbsolute_join hnext]

theorem follow_names (start : Location) {names : List String}
    (h : ∀ name ∈ names, IsNameStep name) : follow start names = start ++ names := by
  induction names generalizing start with
  | nil => rw [follow, List.append_nil]
  | cons name rest ih =>
      have hname := h name (by simp)
      rw [follow, if_neg hname.1, if_neg hname.2,
        ih _ fun other hother => h other (List.mem_cons_of_mem _ hother)]
      simp

/-! ## Walks end where their steps say -/

theorem Walks.place_eq {dir : Location} {steps : List String} {spot : Spot}
    (h : Walks tree dir steps (.arrived spot)) : spot.place = follow dir steps := by
  generalize hhalt : Halt.arrived spot = halt at h
  induction h with
  | stop _ =>
      cases hhalt
      rfl
  | stay _ _ ih =>
      rw [follow, if_pos rfl]
      exact ih hhalt
  | up _ _ ih =>
      rw [follow, if_neg (by decide), if_pos rfl]
      exact ih hhalt
  | last _ hstep =>
      cases hhalt
      rw [follow, if_neg hstep.1, if_neg hstep.2]
      rfl
  | link => exact absurd hhalt (by simp)
  | enter _ hstep _ _ _ ih =>
      rw [follow, if_neg hstep.1, if_neg hstep.2]
      exact ih hhalt

theorem Walks.name_of_child {dir parent : Location} {steps : List String} {name : String}
    (h : Walks tree dir steps (.arrived (.child parent name))) :
    name ∈ steps ∧ IsNameStep name := by
  generalize hhalt : Halt.arrived (.child parent name) = halt at h
  induction h with
  | stop _ => exact absurd hhalt (by simp)
  | stay _ _ ih => exact ⟨List.mem_cons_of_mem _ (ih hhalt).1, (ih hhalt).2⟩
  | up _ _ ih => exact ⟨List.mem_cons_of_mem _ (ih hhalt).1, (ih hhalt).2⟩
  | last _ hstep =>
      cases hhalt
      exact ⟨by simp, hstep⟩
  | link => exact absurd hhalt (by simp)
  | enter _ _ _ _ _ ih => exact ⟨List.mem_cons_of_mem _ (ih hhalt).1, (ih hhalt).2⟩

theorem Walks.link_at_halt {dir parent : Location} {steps rest : List String}
    {target : String} (h : Walks tree dir steps (.atLink parent target rest)) :
    ∃ place, tree.entryAt place = some (.link target) := by
  generalize hhalt : Halt.atLink parent target rest = halt at h
  induction h with
  | stop _ => exact absurd hhalt (by simp)
  | stay _ _ ih => exact ih hhalt
  | up _ _ ih => exact ih hhalt
  | last _ _ => exact absurd hhalt (by simp)
  | link _ _ _ _ hlink =>
      cases hhalt
      exact ⟨_, hlink⟩
  | enter _ _ _ _ _ ih => exact ih hhalt

theorem Walks.last_step {dir parent : Location} {steps : List String} {name : String}
    (h : Walks tree dir steps (.arrived (.child parent name))) :
    ∃ front, steps = front ++ [name] := by
  generalize hhalt : Halt.arrived (.child parent name) = halt at h
  induction h with
  | stop _ => exact absurd hhalt (by simp)
  | stay _ _ ih =>
      obtain ⟨front, rfl⟩ := ih hhalt
      exact ⟨"." :: front, rfl⟩
  | up _ _ ih =>
      obtain ⟨front, rfl⟩ := ih hhalt
      exact ⟨".." :: front, rfl⟩
  | last _ _ =>
      cases hhalt
      exact ⟨[], rfl⟩
  | link => exact absurd hhalt (by simp)
  | @enter _ step _ _ _ _ _ _ _ ih =>
      obtain ⟨front, rfl⟩ := ih hhalt
      exact ⟨step :: front, rfl⟩

theorem Walks.rest_at_link {dir parent : Location} {steps rest : List String} {target : String}
    (h : Walks tree dir steps (.atLink parent target rest)) : rest ≠ [] ∧ rest <:+ steps := by
  generalize hhalt : Halt.atLink parent target rest = halt at h
  induction h with
  | stop _ => exact absurd hhalt (by simp)
  | stay _ _ ih => exact ⟨(ih hhalt).1, (ih hhalt).2.trans (List.suffix_cons _ _)⟩
  | up _ _ ih => exact ⟨(ih hhalt).1, (ih hhalt).2.trans (List.suffix_cons _ _)⟩
  | last _ _ => exact absurd hhalt (by simp)
  | link _ _ _ hmore _ =>
      cases hhalt
      exact ⟨hmore, List.suffix_cons _ _⟩
  | enter _ _ _ _ _ ih => exact ⟨(ih hhalt).1, (ih hhalt).2.trans (List.suffix_cons _ _)⟩

/-- Whatever leads to something else than a directory ends with a name. -/
theorem Leads.last_step {purpose : Purpose} {links : Nat} {dir : Location}
    {steps : List String} {slash : Bool} {found : Spot × Bool}
    (h : Leads tree purpose links dir steps slash found)
    (hother : tree.entryAt found.1.place ≠ some .directory) :
    ∃ front name, steps = front ++ [name] ∧ IsNameStep name := by
  induction h with
  | arrive hhalt =>
      cases hhalt with
      | self hwalk => exact absurd hwalk.directory_at_end hother
      | child hwalk _ _ _ =>
          obtain ⟨front, hfront⟩ := hwalk.last_step
          exact ⟨front, _, hfront, hwalk.name_of_child.2⟩
  | @follow _ _ _ steps rest _ _ _ hhalt _ _ ih =>
      cases hhalt with
      | atLink hwalk =>
          obtain ⟨hne, before, hbefore⟩ := hwalk.rest_at_link
          obtain ⟨front, name, hfront, hstep⟩ := ih hother
          -- the last step behind the link is the last of all
          have hconcat := List.dropLast_concat_getLast hne
          rw [← hconcat, ← List.append_assoc] at hfront
          have hlast := (List.append_inj' hfront rfl).2
          refine ⟨before ++ rest.dropLast, name, ?_, hstep⟩
          rw [← hbefore, List.append_assoc, ← hlast, hconcat]
      | lastLink hwalk _ _ _ _ =>
          obtain ⟨front, hfront⟩ := hwalk.last_step
          exact ⟨front, _, hfront, hwalk.name_of_child.2⟩

theorem IsPlain.walks_of_resolve (h : tree.IsPlain) {purpose : Purpose} {path : FilePath}
    {spot : Spot} {slash : Bool} (hr : tree.resolve purpose path = .ok (spot, slash)) :
    Walks tree (tree.startOf path) path.steps (.arrived spot) ∧
      slash = path.endsWithSlash := by
  obtain ⟨_, hlead⟩ := resolve_eq_ok_iff.mp hr
  cases hlead with
  | arrive hhalt =>
      cases hhalt with
      | self hwalk => exact ⟨hwalk, rfl⟩
      | child hwalk _ _ _ => exact ⟨hwalk, rfl⟩
  | follow hhalt _ _ =>
      cases hhalt with
      | atLink hwalk =>
          obtain ⟨place, hlink⟩ := hwalk.link_at_halt
          exact absurd hlink (h.no_link place _)
      | lastLink _ _ _ _ hlink => exact absurd hlink (h.no_link _ _)

theorem IsPlain.place_of_resolve (h : tree.IsPlain) {purpose : Purpose} {path : FilePath}
    {spot : Spot} {slash : Bool} (hr : tree.resolve purpose path = .ok (spot, slash)) :
    spot.place = tree.locationOf path :=
  (h.walks_of_resolve hr).1.place_eq

theorem IsPlain.place_of_lookUp (h : tree.IsPlain) {follow : Bool} {path : FilePath}
    {place : Location} {entry : Entry} (hl : tree.lookUp follow path = .ok (place, entry)) :
    place = tree.locationOf path := by
  obtain ⟨spot, slash, hr, rfl, _, _⟩ := lookUp_eq_ok_iff.mp hl
  exact h.place_of_resolve hr

/-! ## Paths that go up from directories -/

theorem IsWellFormed.directory_of_prefix (h : tree.IsWellFormed) {place above : Location}
    (hthere : tree.entryAt place ≠ none) (habove : above <+: place) (hne : above ≠ place) :
    tree.entryAt above = some .directory := by
  obtain ⟨names, rfl⟩ := habove
  induction names using List.reverseRecOn with
  | nil => exact absurd (List.append_nil above).symm hne
  | append_singleton names name ih =>
      rw [← List.append_assoc] at hthere
      have hparent := h.parent _ name hthere
      by_cases hnames : names = []
      · rw [hnames, List.append_nil] at hparent
        exact hparent
      · refine ih ?_ ?_
        · rw [hparent]
          simp
        · simpa using hnames

/-- Wherever such a path comes by, there is a directory, or its end lies below. -/
theorem IsWellFormed.directory_or_prefix (h : tree.IsWellFormed) {dir : Location}
    {steps : List String} (hups : tree.UpsExist dir steps) :
    tree.entryAt dir = some .directory ∨ dir <+: follow dir steps := by
  induction steps generalizing dir with
  | nil => exact .inr (List.prefix_refl dir)
  | cons step rest ih =>
      rw [UpsExist] at hups
      rw [follow]
      by_cases hdot : step = "."
      · rw [if_pos hdot] at hups ⊢
        exact ih hups
      · rw [if_neg hdot] at hups ⊢
        by_cases hup : step = ".."
        · rw [if_pos hup] at hups
          exact .inl hups.1
        · rw [if_neg hup] at hups ⊢
          rcases ih hups with hdirectory | hfront
          · left
            refine h.parent dir step ?_
            rw [hdirectory]
            simp
          · exact .inr ((List.prefix_append dir [step]).trans hfront)

/-- A walk over a later tree can be made in a tree that has the entry at its end already. -/
theorem IsWellFormed.walks_of_later (h : tree.IsWellFormed) {dir : Location}
    {steps : List String} {spot : Spot} (hwalk : Walks later dir steps (.arrived spot))
    (hups : tree.UpsExist dir steps) (hthere : tree.entryAt spot.place ≠ none)
    (hsame : tree.entryAt spot.place = later.entryAt spot.place) :
    Walks tree dir steps (.arrived spot) := by
  generalize hhalt : Halt.arrived spot = halt at hwalk
  -- what the walk comes by is a directory of the tree, or it is the end and one of both trees
  have hdirectory : ∀ (dir : Location) (steps : List String), spot.place = follow dir steps →
      tree.UpsExist dir steps → later.entryAt dir = some .directory →
      tree.entryAt dir = some .directory := by
    intro dir steps hplace hups hlater
    rcases h.directory_or_prefix hups with hdirectory | hfront
    · exact hdirectory
    · rw [← hplace] at hfront
      by_cases hend : dir = spot.place
      · rw [hend, hsame, ← hend]
        exact hlater
      · exact h.directory_of_prefix hthere hfront hend
  induction hwalk with
  | stop hdir =>
      cases hhalt
      exact .stop (hdirectory _ [] rfl trivial hdir)
  | @stay dir rest halt hdir hrest ih =>
      subst hhalt
      have hplace : spot.place = follow dir ("." :: rest) := (Walks.stay hdir hrest).place_eq
      have hrestUps : tree.UpsExist dir rest := by
        rw [UpsExist, if_pos rfl] at hups
        exact hups
      exact .stay (hdirectory _ _ hplace hups hdir) (ih hrestUps rfl)
  | @up dir rest halt hdir hrest ih =>
      subst hhalt
      rw [UpsExist, if_neg (by decide), if_pos rfl] at hups
      exact .up hups.1 (ih hups.2 rfl)
  | @last dir step hdir hstep =>
      cases hhalt
      have hplace := (Walks.last hdir hstep).place_eq
      exact .last (hdirectory _ _ hplace hups hdir) hstep
  | link => exact absurd hhalt (by simp)
  | @enter dir step rest halt hdir hstep hshort hmore hrest ih =>
      subst hhalt
      have hplace := (Walks.enter hdir hstep hshort hmore hrest).place_eq
      have hrestUps : tree.UpsExist (dir ++ [step]) rest := by
        rw [UpsExist, if_neg hstep.1, if_neg hstep.2] at hups
        exact hups
      exact .enter (hdirectory _ _ hplace hups hdir) hstep hshort hmore (ih hrestUps rfl)

theorem IsPlain.lookUp_of_later (h : tree.IsPlain) (hlater : later.IsPlain)
    (hworkDir : later.workDir = tree.workDir) {path : FilePath}
    (hups : tree.GoesUpFromDirectories path) {place : Location} {entry : Entry}
    (hl : later.lookUp true path = .ok (place, entry))
    (hentry : tree.entryAt place = some entry) :
    tree.lookUp true path = .ok (place, entry) := by
  obtain ⟨spot, slash, hr, rfl, hlaterEntry, hslash⟩ := lookUp_eq_ok_iff.mp hl
  obtain ⟨hwalk, rfl⟩ := hlater.walks_of_resolve hr
  obtain ⟨hpath, hlead⟩ := resolve_eq_ok_iff.mp hr
  rw [startOf_eq hworkDir] at hwalk
  have hthere : tree.entryAt spot.place ≠ none := by
    rw [hentry]
    simp
  have hsame : tree.entryAt spot.place = later.entryAt spot.place :=
    hentry.trans hlaterEntry.symm
  have htreeWalk := h.toIsWellFormed.walks_of_later hwalk hups hthere hsame
  refine lookUp_eq_ok_iff.mpr ⟨spot, path.endsWithSlash, ?_, rfl, hentry, hslash⟩
  refine resolve_eq_ok_iff.mpr ⟨hpath, .arrive ?_⟩
  cases spot with
  | self dir => exact .self htreeWalk
  | child dir name =>
      have hshort : name.utf8ByteSize ≤ maxNameBytes := by
        cases hlead with
        | arrive hhalt =>
            cases hhalt with
            | child _ _ hshort _ => exact hshort
        | follow hhalt _ _ =>
            cases hhalt with
            | atLink hwalk =>
                obtain ⟨place, hlink⟩ := hwalk.link_at_halt
                exact absurd hlink (hlater.no_link place _)
            | lastLink _ _ _ _ hlink => exact absurd hlink (hlater.no_link _ _)
      exact .child htreeWalk rfl hshort fun _ target => h.no_link _ target

end FileTree

end MediaMigration
