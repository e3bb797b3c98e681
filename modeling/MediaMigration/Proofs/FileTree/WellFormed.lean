import MediaMigration.Proofs.FileTree.Location
import MediaMigration.Proofs.FileTree.Opening

/-!
# Changes keep a tree well formed

A change puts a directory or a file under a proper name into a directory, or takes a file or
a link away. Whatever lasts through these two lasts through everything that is done to a
tree: that it is well formed does, and that it has no links.
-/

namespace MediaMigration

namespace FileTree

/-- A property of trees that single changes cannot break. -/
structure LastsThroughChanges (property : FileTree → Prop) : Prop where
  put : ∀ {tree : FileTree} {dir : Location} {name : String} {entry : Entry}, property tree →
    tree.entryAt dir = some .directory → IsProperName name →
    tree.entryAt (dir ++ [name]) ≠ some .directory → (∀ target, entry ≠ .link target) →
    property (tree.put (dir ++ [name]) entry)
  erase : ∀ {tree : FileTree} {dir : Location} {name : String}, property tree →
    tree.entryAt (dir ++ [name]) ≠ some .directory → property (tree.erase (dir ++ [name]))

variable {tree : FileTree} {dir place other : Location} {name : String}

theorem directory_put (h : tree.entryAt place = some .directory) (hne : other ≠ [])
    (hfree : tree.entryAt other ≠ some .directory) (entry : Entry) :
    (tree.put other entry).entryAt place = some .directory := by
  have hother : other ≠ place := by
    rintro rfl
    exact hfree h
  rw [entryAt_put tree hne, if_neg hother, h]

theorem directory_erase (h : tree.entryAt place = some .directory) (hne : other ≠ [])
    (hfree : tree.entryAt other ≠ some .directory) :
    (tree.erase other).entryAt place = some .directory := by
  have hother : other ≠ place := by
    rintro rfl
    exact hfree h
  rw [entryAt_erase tree hne, if_neg hother, h]

theorem keepsWays_put (hne : place ≠ []) (hdirectory : tree.entryAt place ≠ some .directory)
    (hlink : ∀ target, tree.entryAt place ≠ some (.link target)) {entry : Entry}
    (hentry : ∀ target, entry ≠ .link target) : KeepsWays tree (tree.put place entry) := by
  refine ⟨rfl, fun other hother => directory_put hother hne hdirectory entry, ?_⟩
  intro other target
  rw [entryAt_put tree hne]
  split
  · next heq =>
      rw [← heq]
      constructor
      · intro h
        exact absurd (Option.some.inj h) (hentry target)
      · intro h
        exact absurd h (hlink target)
  · exact Iff.rfl

theorem keepsWays_erase (hne : place ≠ []) (hdirectory : tree.entryAt place ≠ some .directory)
    (hlink : ∀ target, tree.entryAt place ≠ some (.link target)) :
    KeepsWays tree (tree.erase place) := by
  refine ⟨rfl, fun other hother => directory_erase hother hne hdirectory, ?_⟩
  intro other target
  rw [entryAt_erase tree hne]
  split
  · next heq =>
      rw [← heq]
      simp [hlink target]
  · exact Iff.rfl

theorem IsWellFormed.put (h : tree.IsWellFormed) (hdir : tree.entryAt dir = some .directory)
    (hname : IsProperName name) (hfree : tree.entryAt (dir ++ [name]) ≠ some .directory)
    (entry : Entry) : (tree.put (dir ++ [name]) entry).IsWellFormed := by
  have hne : dir ++ [name] ≠ [] := by simp
  refine ⟨?_, ?_, directory_put h.workDir hne hfree entry⟩
  · intro place found hfound segment hsegment
    rw [entryAt_put tree hne] at hfound
    by_cases hplace : dir ++ [name] = place
    · rw [← hplace, List.mem_append, List.mem_singleton] at hsegment
      rcases hsegment with habove | hlast
      · exact h.proper dir _ hdir segment habove
      · rw [hlast]
        exact hname
    · rw [if_neg hplace] at hfound
      exact h.proper place found hfound segment hsegment
  · intro place last hthere
    rw [entryAt_put tree hne] at hthere
    by_cases hplace : dir ++ [name] = place ++ [last]
    · obtain ⟨rfl, _⟩ := List.append_inj' hplace rfl
      exact directory_put hdir hne hfree entry
    · rw [if_neg hplace] at hthere
      exact directory_put (h.parent place last hthere) hne hfree entry

theorem IsWellFormed.erase (h : tree.IsWellFormed)
    (hfree : tree.entryAt (dir ++ [name]) ≠ some .directory) :
    (tree.erase (dir ++ [name])).IsWellFormed := by
  have hne : dir ++ [name] ≠ [] := by simp
  refine ⟨?_, ?_, directory_erase h.workDir hne hfree⟩
  · intro place found hfound
    rw [entryAt_erase tree hne] at hfound
    by_cases hplace : dir ++ [name] = place
    · rw [if_pos hplace] at hfound
      exact absurd hfound (by simp)
    · rw [if_neg hplace] at hfound
      exact h.proper place found hfound
  · intro place last hthere
    rw [entryAt_erase tree hne] at hthere
    by_cases hplace : dir ++ [name] = place ++ [last]
    · rw [if_pos hplace] at hthere
      exact absurd rfl hthere
    · rw [if_neg hplace] at hthere
      exact directory_erase (h.parent place last hthere) hne hfree

theorem isWellFormed_lasts : LastsThroughChanges IsWellFormed where
  put h hdir hname hfree _ := h.put hdir hname hfree _
  erase h hfree := h.erase hfree

theorem isPlain_lasts : LastsThroughChanges IsPlain where
  put := by
    intro tree dir name entry h hdir hname hfree hlink
    refine ⟨h.toIsWellFormed.put hdir hname hfree entry, ?_⟩
    intro place target hentry
    rw [entryAt_put tree (by simp)] at hentry
    split at hentry
    · exact hlink target (Option.some.inj hentry)
    · exact h.no_link place target hentry
  erase := by
    intro tree dir name h hfree
    refine ⟨h.toIsWellFormed.erase hfree, ?_⟩
    intro place target hentry
    rw [entryAt_erase tree (by simp)] at hentry
    split at hentry
    · exact absurd hentry (by simp)
    · exact h.no_link place target hentry

theorem workDir_lasts (dir : Location) : LastsThroughChanges fun tree => tree.workDir = dir where
  put h _ _ _ _ := h
  erase h _ := h

/-! ## Deciding whether a tree is well formed -/

instance (name : String) : Decidable (IsProperName name) :=
  decidable_of_iff
    (name ≠ "" ∧ (name ≠ "." ∧ name ≠ "..") ∧ '/' ∉ name.toList ∧
      name.utf8ByteSize ≤ maxNameBytes)
    ⟨fun h => ⟨h.1, h.2.1, h.2.2.1, h.2.2.2⟩,
      fun h => ⟨h.not_empty, h.is_step, h.no_slash, h.short⟩⟩

theorem entryAt_eq_some_iff {place : Location} (hne : place ≠ []) {entry : Entry} :
    tree.entryAt place = some entry ↔ (place, entry) ∈ tree.toList := by
  rw [entryAt, if_neg hne, toList, Std.ExtTreeMap.mem_toList_iff_getElem?_eq_some]

/-- It is enough to go through the entries of the tree. -/
theorem isWellFormed_iff : tree.IsWellFormed ↔
    (∀ found ∈ tree.toList, (∀ name ∈ found.1, IsProperName name) ∧
      tree.entryAt found.1.dropLast = some .directory) ∧
      tree.entryAt tree.workDir = some .directory := by
  constructor
  · intro h
    refine ⟨?_, h.workDir⟩
    rintro ⟨place, entry⟩ hfound
    by_cases hroot : place = []
    · subst hroot
      exact ⟨by simp, rfl⟩
    · have hentry := (entryAt_eq_some_iff hroot).mpr hfound
      refine ⟨h.proper place entry hentry, ?_⟩
      have hsplit := List.dropLast_concat_getLast hroot
      refine h.parent place.dropLast (place.getLast hroot) ?_
      rw [hsplit, hentry]
      simp
  · rintro ⟨hall, hworkDir⟩
    refine ⟨?_, ?_, hworkDir⟩
    · intro place entry hentry name hname
      have hne : place ≠ [] := List.ne_nil_of_mem hname
      exact (hall _ ((entryAt_eq_some_iff hne).mp hentry)).1 name hname
    · intro place name hthere
      obtain ⟨entry, hentry⟩ := Option.ne_none_iff_exists'.mp hthere
      have hparent := (hall _ ((entryAt_eq_some_iff (by simp)).mp hentry)).2
      rw [List.dropLast_concat] at hparent
      exact hparent

instance (tree : FileTree) : Decidable tree.IsWellFormed :=
  decidable_of_iff _ isWellFormed_iff.symm

def isLink : Entry → Bool
  | .link _ => true
  | _ => false

theorem isPlain_iff : tree.IsPlain ↔
    tree.IsWellFormed ∧ ∀ found ∈ tree.toList, found.1 ≠ [] → isLink found.2 = false := by
  constructor
  · intro h
    refine ⟨h.toIsWellFormed, ?_⟩
    rintro ⟨place, entry⟩ hfound hne
    have hentry := (entryAt_eq_some_iff hne).mpr hfound
    cases entry with
    | link target => exact absurd hentry (h.no_link place target)
    | file content => rfl
    | directory => rfl
  · rintro ⟨hformed, hall⟩
    refine ⟨hformed, ?_⟩
    intro place target hlink
    by_cases hroot : place = []
    · rw [hroot, entryAt, if_pos rfl] at hlink
      exact absurd hlink (by simp)
    · have hnot := hall _ ((entryAt_eq_some_iff hroot).mp hlink) hroot
      exact absurd hnot (by simp [isLink])

instance (tree : FileTree) : Decidable tree.IsPlain :=
  decidable_of_iff _ isPlain_iff.symm

/-! ## Names that resolving comes to -/

theorem Walks.mem_of_link {dir parent : Location} {steps rest : List String} {target : String}
    (h : Walks tree dir steps (.atLink parent target rest)) :
    ∀ step ∈ rest, step ∈ steps := by
  generalize hhalt : Halt.atLink parent target rest = halt at h
  induction h with
  | stop _ => exact absurd hhalt (by simp)
  | stay _ _ ih => exact fun step hstep => List.mem_cons_of_mem _ (ih hhalt step hstep)
  | up _ _ ih => exact fun step hstep => List.mem_cons_of_mem _ (ih hhalt step hstep)
  | last _ _ => exact absurd hhalt (by simp)
  | link _ _ _ _ _ =>
      cases hhalt
      exact fun step hstep => List.mem_cons_of_mem _ hstep
  | enter _ _ _ _ _ ih => exact fun step hstep => List.mem_cons_of_mem _ (ih hhalt step hstep)

theorem segment_of_mem_steps {path : FilePath} {step : String} (h : step ∈ path.steps) :
    step ≠ "" ∧ '/' ∉ step.toList := by
  obtain ⟨hsegment, hne⟩ := List.mem_filter.mp h
  exact ⟨by simpa using hne, FilePath.no_slash_of_mem_segments hsegment⟩

theorem Leads.proper_child {purpose : Purpose} {links : Nat} {dir parent : Location}
    {name : String} {steps : List String} {slash ended : Bool}
    (h : Leads tree purpose links dir steps slash (.child parent name, ended))
    (hsteps : ∀ step ∈ steps, step ≠ "" ∧ '/' ∉ step.toList) : IsProperName name := by
  generalize hfound : (Spot.child parent name, ended) = found at h
  induction h with
  | arrive hhalt =>
      cases hfound
      cases hhalt with
      | child hwalk _ hshort _ =>
          obtain ⟨hmem, hstep⟩ := hwalk.name_of_child
          exact ⟨(hsteps name hmem).1, hstep, (hsteps name hmem).2, hshort⟩
  | follow hhalt _ _ ih =>
      refine ih ?_ hfound
      intro step hstep
      rcases List.mem_append.mp hstep with htarget | hrest
      · exact segment_of_mem_steps htarget
      · cases hhalt with
        | atLink hwalk => exact hsteps step (hwalk.mem_of_link step hrest)
        | lastLink _ _ _ _ _ => exact absurd hrest (by simp)

theorem Leads.directory_of_child {purpose : Purpose} {links : Nat} {dir parent : Location}
    {name : String} {steps : List String} {slash ended : Bool}
    (h : Leads tree purpose links dir steps slash (.child parent name, ended)) :
    tree.entryAt parent = some .directory := by
  generalize hfound : (Spot.child parent name, ended) = found at h
  induction h with
  | arrive hhalt =>
      cases hfound
      cases hhalt with
      | child hwalk _ _ _ => exact hwalk.directory_at_end
  | follow _ _ _ ih => exact ih hfound

theorem child_of_resolve {purpose : Purpose} {path : FilePath} {parent : Location}
    {name : String} {slash : Bool}
    (hr : tree.resolve purpose path = .ok (.child parent name, slash)) :
    tree.entryAt parent = some .directory ∧ IsProperName name := by
  obtain ⟨_, hlead⟩ := resolve_eq_ok_iff.mp hr
  exact ⟨hlead.directory_of_child, hlead.proper_child fun _ hstep => segment_of_mem_steps hstep⟩

/-! ## What lasts through single changes lasts through all -/

namespace LastsThroughChanges

variable {property : FileTree → Prop}

theorem makeDirectory (h : LastsThroughChanges property) {path : FilePath} {made : FileTree}
    (htree : property tree) (hmade : tree.makeDirectory path = .ok made) : property made := by
  unfold FileTree.makeDirectory at hmade
  split at hmade
  · exact absurd hmade (by simp)
  · exact absurd hmade (by simp)
  · next dir name _ hr =>
      obtain ⟨hdir, hname⟩ := child_of_resolve hr
      split at hmade
      · exact absurd hmade (by simp)
      · next hfree =>
          obtain rfl := Except.ok.inj hmade
          exact h.put htree hdir hname (by simp [hfree]) (by simp)

theorem makeDirectories (h : LastsThroughChanges property) (htree : property tree)
    (paths : List FilePath) : property (tree.makeDirectories paths).2 :=
  makeDirectories_relates (fun tree later => property tree → property later)
    (fun _ htree => htree) (fun hfirst hsecond htree => hsecond (hfirst htree))
    (fun _ hmade htree => h.makeDirectory htree hmade) tree htree

theorem makeParent (h : LastsThroughChanges property) (htree : property tree)
    (path : FilePath) : property (tree.makeParent path).2 := by
  unfold FileTree.makeParent
  split
  · exact h.makeDirectories htree _
  · exact htree

theorem put_file (h : LastsThroughChanges property) {path : FilePath} {place : Location}
    (htree : property tree) (hwritable : tree.IsWritable path place) (content : Bytes) :
    property (tree.put place (.file content)) := by
  obtain ⟨hfree, dir, name, _, _, hr, rfl⟩ := hwritable
  obtain ⟨hdir, hname⟩ := child_of_resolve hr
  refine h.put htree hdir hname ?_ (by simp)
  rcases hfree with hnone | ⟨old, hfile⟩
  · simp [hnone]
  · simp [hfile]

theorem removeFile (h : LastsThroughChanges property) (htree : property tree)
    (path : FilePath) : property (tree.removeFile path) := by
  unfold FileTree.removeFile
  split
  · split
    · next hfile => exact h.erase htree (by simp [hfile])
    · next hlink => exact h.erase htree (by simp [hlink])
    · exact htree
  · exact htree

end LastsThroughChanges

end FileTree

end MediaMigration
