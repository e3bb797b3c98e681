import MediaMigration.FileTree.Change
import MediaMigration.Proofs.FileTree.Resolution

/-!
# Growth of a tree

A tree grows when directories and files are added and nothing is taken away. Paths that led
somewhere before lead to the same place afterwards: on its way a path meets only entries
that are there, and no link can be new. Growth that also leaves the contents of all files
alone keeps every answer that looking up a path has given.
-/

namespace MediaMigration

namespace FileTree

/-- A later tree has the directories of a tree and the same links. Files may come and go: no path
leads on behind one. -/
structure KeepsWays (tree later : FileTree) : Prop where
  workDir_eq : later.workDir = tree.workDir
  directory_kept : ∀ place, tree.entryAt place = some .directory →
    later.entryAt place = some .directory
  link_iff : ∀ place target,
    later.entryAt place = some (.link target) ↔ tree.entryAt place = some (.link target)

/-- A later tree has every entry of a tree where it was, and no other links. Files may have
other contents. -/
structure GrowsTo (tree later : FileTree) : Prop where
  workDir_eq : later.workDir = tree.workDir
  directory_kept : ∀ place, tree.entryAt place = some .directory →
    later.entryAt place = some .directory
  file_kept : ∀ place content, tree.entryAt place = some (.file content) →
    ∃ other, later.entryAt place = some (.file other)
  link_iff : ∀ place target,
    later.entryAt place = some (.link target) ↔ tree.entryAt place = some (.link target)

/-- A later tree has every entry of a tree, with its content, and no other links. -/
structure KeptBy (tree later : FileTree) : Prop extends GrowsTo tree later where
  content_kept : ∀ place content, tree.entryAt place = some (.file content) →
    later.entryAt place = some (.file content)

structure OnlyDirectoriesAdded (tree later : FileTree) : Prop extends KeptBy tree later where
  only_directories : ∀ place, tree.entryAt place = none →
    later.entryAt place = none ∨ later.entryAt place = some .directory

variable {tree later last : FileTree}

/-! ## Laws of growth -/

theorem KeptBy.entry_kept (h : KeptBy tree later) {place : Location} {entry : Entry}
    (he : tree.entryAt place = some entry) : later.entryAt place = some entry := by
  cases entry with
  | file content => exact h.content_kept place content he
  | directory => exact h.directory_kept place he
  | link target => exact (h.link_iff place target).mpr he

theorem KeptBy.free_before (h : KeptBy tree later) {place : Location}
    (hfree : later.entryAt place = none) : tree.entryAt place = none := by
  cases he : tree.entryAt place with
  | none => rfl
  | some entry =>
      rw [h.entry_kept he] at hfree
      exact absurd hfree (by simp)

theorem KeptBy.refl (tree : FileTree) : KeptBy tree tree :=
  ⟨⟨rfl, fun _ h => h, fun _ content h => ⟨content, h⟩, fun _ _ => Iff.rfl⟩, fun _ _ h => h⟩

theorem GrowsTo.trans (h : GrowsTo tree later) (g : GrowsTo later last) : GrowsTo tree last := by
  refine ⟨g.workDir_eq.trans h.workDir_eq, ?_, ?_, ?_⟩
  · exact fun place hp => g.directory_kept place (h.directory_kept place hp)
  · intro place content hp
    obtain ⟨other, hother⟩ := h.file_kept place content hp
    exact g.file_kept place other hother
  · exact fun place target => (g.link_iff place target).trans (h.link_iff place target)

theorem KeptBy.trans (h : KeptBy tree later) (g : KeptBy later last) : KeptBy tree last :=
  ⟨h.toGrowsTo.trans g.toGrowsTo, fun place content hp =>
    g.content_kept place content (h.content_kept place content hp)⟩

theorem OnlyDirectoriesAdded.refl (tree : FileTree) : OnlyDirectoriesAdded tree tree :=
  ⟨.refl tree, fun _ h => .inl h⟩

theorem OnlyDirectoriesAdded.trans (h : OnlyDirectoriesAdded tree later)
    (g : OnlyDirectoriesAdded later last) : OnlyDirectoriesAdded tree last := by
  refine ⟨h.toKeptBy.trans g.toKeptBy, fun place hp => ?_⟩
  rcases h.only_directories place hp with hnone | hdir
  · exact g.only_directories place hnone
  · exact .inr (g.directory_kept place hdir)

@[simp] theorem file?_eq_some_iff {place : Location} {content : Bytes} :
    tree.file? place = some content ↔ tree.entryAt place = some (.file content) := by
  unfold file?
  cases h : tree.entryAt place with
  | none => simp
  | some entry => cases entry <;> simp

theorem KeptBy.file?_kept (h : KeptBy tree later) {place : Location} {content : Bytes}
    (hf : tree.file? place = some content) : later.file? place = some content :=
  file?_eq_some_iff.mpr (h.entry_kept (file?_eq_some_iff.mp hf))

theorem OnlyDirectoriesAdded.file?_eq (h : OnlyDirectoriesAdded tree later) (place : Location) :
    later.file? place = tree.file? place := by
  unfold file?
  cases hp : tree.entryAt place with
  | some entry => rw [h.entry_kept hp]
  | none =>
      rcases h.only_directories place hp with hnone | hdir
      · rw [hnone]
      · rw [hdir]

theorem keptBy_put {place : Location} {entry : Entry} (hfree : tree.entryAt place = none)
    (hlink : ∀ target, entry ≠ .link target) : KeptBy tree (tree.put place entry) := by
  have hne : place ≠ [] := by
    rintro rfl
    simp [entryAt] at hfree
  have hkept : ∀ other found, tree.entryAt other = some found →
      (tree.put place entry).entryAt other = some found := by
    intro other found hfound
    have hother : place ≠ other := by
      rintro rfl
      rw [hfree] at hfound
      exact absurd hfound (by simp)
    rw [entryAt_put tree hne, if_neg hother, hfound]
  refine ⟨⟨rfl, fun _ => hkept _ _, fun _ content h => ⟨content, hkept _ _ h⟩, ?_⟩,
    fun _ _ => hkept _ _⟩
  intro other target
  refine ⟨fun h => ?_, hkept other _⟩
  rw [entryAt_put tree hne] at h
  split at h
  · exact absurd (Option.some.inj h) (hlink target)
  · exact h

theorem onlyDirectoriesAdded_put {place : Location} (hfree : tree.entryAt place = none) :
    OnlyDirectoriesAdded tree (tree.put place .directory) := by
  have hne : place ≠ [] := by
    rintro rfl
    simp [entryAt] at hfree
  refine ⟨keptBy_put hfree (by simp), fun other hother => ?_⟩
  rw [entryAt_put tree hne]
  split
  · exact .inr rfl
  · exact .inl hother

/-! ## Resolution in a grown tree -/

theorem Walks.mono {dir : Location} {steps : List String} {halt : Halt}
    (hw : Walks tree dir steps halt)
    (hdirectory : ∀ place, tree.entryAt place = some .directory →
      later.entryAt place = some .directory)
    (hlink : ∀ parent step target rest, halt = .atLink parent target rest →
      tree.entryAt (parent ++ [step]) = some (.link target) →
      later.entryAt (parent ++ [step]) = some (.link target)) : Walks later dir steps halt := by
  induction hw with
  | stop hdir => exact .stop (hdirectory _ hdir)
  | stay hdir _ ih => exact .stay (hdirectory _ hdir) (ih hlink)
  | up hdir _ ih => exact .up (hdirectory _ hdir) (ih hlink)
  | last hdir hstep => exact .last (hdirectory _ hdir) hstep
  | link hdir hstep hshort hmore hhere =>
      exact .link (hdirectory _ hdir) hstep hshort hmore (hlink _ _ _ _ rfl hhere)
  | enter hdir hstep hshort hmore _ ih =>
      exact .enter (hdirectory _ hdir) hstep hshort hmore (ih hlink)

theorem KeepsWays.walks (h : KeepsWays tree later) {dir : Location} {steps : List String}
    {halt : Halt} (hw : Walks tree dir steps halt) : Walks later dir steps halt :=
  hw.mono h.directory_kept fun _ _ target _ _ hlink => (h.link_iff _ target).mpr hlink

theorem KeepsWays.halts (h : KeepsWays tree later) {purpose : Purpose} {dir : Location}
    {steps : List String} {slash : Bool} {halt : Halt}
    (hh : Halts tree purpose dir steps slash halt) : Halts later purpose dir steps slash halt := by
  cases hh with
  | atLink hwalk => exact .atLink (h.walks hwalk)
  | self hwalk => exact .self (h.walks hwalk)
  | child hwalk hrefuse hshort hlink =>
      refine .child (h.walks hwalk) hrefuse hshort fun hfollow target hnew => ?_
      exact hlink hfollow target ((h.link_iff _ target).mp hnew)
  | lastLink hwalk hrefuse hshort hfollow hlink =>
      exact .lastLink (h.walks hwalk) hrefuse hshort hfollow ((h.link_iff _ _).mpr hlink)

theorem KeepsWays.leads (h : KeepsWays tree later) {purpose : Purpose} {links : Nat}
    {dir : Location} {steps : List String} {slash : Bool} {found : Spot × Bool}
    (hl : Leads tree purpose links dir steps slash found) :
    Leads later purpose links dir steps slash found := by
  induction hl with
  | arrive hhalt => exact .arrive (h.halts hhalt)
  | follow hhalt htarget _ ih => exact .follow (h.halts hhalt) htarget ih

theorem GrowsTo.keepsWays (h : GrowsTo tree later) : KeepsWays tree later :=
  ⟨h.workDir_eq, h.directory_kept, h.link_iff⟩

theorem GrowsTo.link_kept (h : GrowsTo tree later) {place : Location} {target : String}
    (hp : tree.entryAt place = some (.link target)) :
    later.entryAt place = some (.link target) :=
  (h.link_iff place target).mpr hp

theorem GrowsTo.walks (h : GrowsTo tree later) {dir : Location} {steps : List String}
    {halt : Halt} (hw : Walks tree dir steps halt) : Walks later dir steps halt :=
  h.keepsWays.walks hw

theorem GrowsTo.halts (h : GrowsTo tree later) {purpose : Purpose} {dir : Location}
    {steps : List String} {slash : Bool} {halt : Halt}
    (hh : Halts tree purpose dir steps slash halt) : Halts later purpose dir steps slash halt :=
  h.keepsWays.halts hh

/-- Where a path led in a tree, it leads in one that has the same ways. -/
theorem KeepsWays.resolve_eq (h : KeepsWays tree later) {purpose : Purpose} {path : FilePath}
    {found : Spot × Bool} (hr : tree.resolve purpose path = .ok found) :
    later.resolve purpose path = .ok found := by
  obtain ⟨hpath, hlead⟩ := resolve_eq_ok_iff.mp hr
  refine resolve_eq_ok_iff.mpr ⟨hpath, ?_⟩
  rw [h.workDir_eq]
  exact h.leads hlead

theorem GrowsTo.resolve_eq (h : GrowsTo tree later) {purpose : Purpose} {path : FilePath}
    {found : Spot × Bool} (hr : tree.resolve purpose path = .ok found) :
    later.resolve purpose path = .ok found :=
  h.keepsWays.resolve_eq hr

theorem GrowsTo.lookUp_directory (h : GrowsTo tree later) {follow : Bool} {path : FilePath}
    {place : Location} (hl : tree.lookUp follow path = .ok (place, .directory)) :
    later.lookUp follow path = .ok (place, .directory) := by
  obtain ⟨spot, slash, hr, hplace, hdirectory, hslash⟩ := lookUp_eq_ok_iff.mp hl
  exact lookUp_eq_ok_iff.mpr
    ⟨spot, slash, h.resolve_eq hr, hplace, h.directory_kept _ hdirectory, hslash⟩

theorem GrowsTo.lookUp_file (h : GrowsTo tree later) {follow : Bool} {path : FilePath}
    {place : Location} {content : Bytes}
    (hl : tree.lookUp follow path = .ok (place, .file content)) :
    ∃ other, later.lookUp follow path = .ok (place, .file other) := by
  obtain ⟨spot, slash, hr, hplace, hfile, hslash⟩ := lookUp_eq_ok_iff.mp hl
  obtain ⟨other, hother⟩ := h.file_kept _ _ hfile
  refine ⟨other, lookUp_eq_ok_iff.mpr ⟨spot, slash, h.resolve_eq hr, hplace, hother, ?_⟩⟩
  intro _
  exact hslash (by simp)

/-- What a path showed in a tree, it shows in every tree that keeps the contents. -/
theorem KeptBy.lookUp_eq (h : KeptBy tree later) {follow : Bool} {path : FilePath}
    {place : Location} {entry : Entry} (hl : tree.lookUp follow path = .ok (place, entry)) :
    later.lookUp follow path = .ok (place, entry) := by
  obtain ⟨spot, slash, hr, hplace, he, hslash⟩ := lookUp_eq_ok_iff.mp hl
  exact lookUp_eq_ok_iff.mpr
    ⟨spot, slash, h.toGrowsTo.resolve_eq hr, hplace, h.entry_kept he, hslash⟩

theorem KeptBy.fileOf?_kept (h : KeptBy tree later) {path : FilePath}
    {found : Location × Bytes} (hf : tree.fileOf? path = some found) :
    later.fileOf? path = some found :=
  fileOf?_eq_some_iff.mpr (h.lookUp_eq (fileOf?_eq_some_iff.mp hf))

end FileTree

end MediaMigration
