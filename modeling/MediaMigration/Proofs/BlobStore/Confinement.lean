import MediaMigration.Proofs.BlobStore.Location
import MediaMigration.Proofs.BlobStore.Overwriting
import MediaMigration.Proofs.FileTree.Confinement

/-!
# Storing changes the tree at the store only

Whatever is stored lies below the root of the store, and the directories that are made for it
lie on the way, unless the path of the root goes up from a directory that is not there yet.
Also nothing is taken away: a target is removed again only when its content cannot be read, and
a regular file always can.
-/

namespace MediaMigration

namespace BlobStore

open FileTree

variable {store : BlobStore} {container blob : String} {path : FilePath}
  {start tree : FileTree}

/-! ## Uploads of files -/

theorem transfer_never (reads : List Bytes) (look written : Nat) :
    ∃ count, (transfer .never none reads look written).result = .ok count := by
  induction reads generalizing look written with
  | nil => exact ⟨written, rfl⟩
  | cons chunk rest ih => exact ih (look + 1) (written + chunk.length)

/-- Filling a target from a file depends on what the file holds only. -/
theorem exists_fill (path : FilePath) (target source : Location) (held : Bytes) :
    ∃ (count : Nat) (progress : List Nat) (moved : Bytes), ∀ tree : FileTree,
      tree.entryAt source = some (.file held) →
        fill path target (.fileAt source) .never tree =
          ⟨.ok count, progress, tree.put target (.file moved)⟩ := by
  obtain ⟨count, hcount⟩ := transfer_never (Content.cutToBuffer held) 1 0
  refine ⟨count, (transfer .never none (Content.cutToBuffer held) 1 0).progress,
    (transfer .never none (Content.cutToBuffer held) 1 0).moved, ?_⟩
  intro tree hfile
  simp only [fill_def, Content.read, hfile, hcount]

/-- The upload of a regular file makes the parent of its target and writes the target, or
stops before it does. -/
theorem upload_file_cases {source : Location} {held : Bytes}
    (hfile : tree.entryAt source = some (.file held)) (store : BlobStore)
    (container blob : String) :
    let after := (store.upload container blob (.fileAt source) .never tree).tree
    after = tree ∨ ∃ path, store.blobPath container blob = .ok path ∧
      (after = (tree.makeParent path).2 ∨
        ∃ place bytes, (tree.makeParent path).2.IsWritable path place ∧
          after = (tree.makeParent path).2.put place (.file bytes)) := by
  intro after
  rcases upload_cases store container blob (.fileAt source) .never tree with
    ⟨_, _, hsame | ⟨path, hpath, hmade⟩⟩ | ⟨path, place, hpath, hwritable, _, hfill⟩
  · exact .inl hsame
  · exact .inr ⟨path, hpath, .inl hmade⟩
  · -- also where it is the target itself, the source is a file that can be read
    have hsource : ∃ bytes, ((tree.makeParent path).2.put place (.file [])).entryAt source =
        some (.file bytes) := by
      rw [hwritable.entryAt_put]
      split
      · exact ⟨[], rfl⟩
      · exact ⟨held, (makeParent_adds tree path).entry_kept hfile⟩
    obtain ⟨bytes, hbytes⟩ := hsource
    obtain ⟨_, _, moved, hmoved⟩ := exists_fill path place source bytes
    refine .inr ⟨path, hpath, .inr ⟨place, moved, hwritable, ?_⟩⟩
    simp only [after, hfill, hmoved _ hbytes, put_put]

/-! ## Trees that storing leads to -/

/-- A tree that storing below a root has led to from another one: nothing was taken away, and
whatever was changed is on the way to the root or below it. -/
structure GrownAt (root : FilePath) (start tree : FileTree) : Prop where
  plain : tree.IsPlain
  grows : GrowsTo start tree
  same : start.GoesUpFromDirectories root →
    SameOutside (IsNear (start.locationOf root)) start tree

theorem GrownAt.refl {root : FilePath} (h : start.IsPlain) : GrownAt root start start :=
  ⟨h, (KeptBy.refl start).toGrowsTo, fun _ => .refl _ start⟩

theorem GrownAt.trans {root : FilePath} {later : FileTree} (h : GrownAt root start tree)
    (g : GrownAt root tree later) : GrownAt root start later := by
  refine ⟨g.plain, h.grows.trans g.grows, ?_⟩
  intro hups
  have hnext := g.same (hups.kept h.grows)
  rw [FileTree.locationOf_eq h.grows.workDir_eq] at hnext
  exact (h.same hups).trans hnext

theorem GrownAt.upload (h : GrownAt store.root start tree) {source : Location} {held : Bytes}
    (hfile : tree.entryAt source = some (.file held)) (container blob : String) :
    GrownAt store.root start
      (store.upload container blob (.fileAt source) .never tree).tree := by
  rcases upload_file_cases hfile store container blob with hsame | ⟨path, hpath, hcases⟩
  · rw [hsame]
    exact h
  · have hplain := blobPath_eq_ok hpath
    have hlocation : tree.locationOf path =
        start.locationOf store.root ++ container :: FilePath.moves ⟨blob⟩ := by
      rw [FileTree.locationOf_eq h.grows.workDir_eq, hplain.locationOf_eq]
    have hnear : ∀ place, place <+: tree.locationOf path →
        IsNear (start.locationOf store.root) place := by
      intro place hway
      rw [hlocation] at hway
      exact isNear_of_isPrefix (List.prefix_append _ _) hway
    have hbasePlain : (tree.makeParent path).2.IsPlain := isPlain_lasts.makeParent h.plain path
    have hbaseKept := (makeParent_adds tree path).toKeptBy
    have hbaseSame : start.GoesUpFromDirectories store.root →
        SameOutside (IsNear (start.locationOf store.root)) start (tree.makeParent path).2 := by
      intro hups
      have hpathUps : tree.GoesUpFromDirectories path := hplain.goesUp (hups.kept h.grows)
      have hmade := (h.plain.makeParent_on_way hpathUps).mono hnear
      exact (h.same hups).trans hmade
    rcases hcases with hmade | ⟨place, bytes, hwritable, hwritten⟩
    · rw [hmade]
      exact ⟨hbasePlain, h.grows.trans hbaseKept.toGrowsTo, hbaseSame⟩
    · have hplace : place = tree.locationOf path := by
        rw [hbasePlain.place_of_isWritable hwritable,
          FileTree.locationOf_eq hbaseKept.workDir_eq]
      have hput : SameOutside (IsNear (start.locationOf store.root)) (tree.makeParent path).2
          ((tree.makeParent path).2.put place (.file bytes)) :=
        sameOutside_put hwritable.ne_root (hnear place (hplace ▸ List.prefix_refl place)) _
      rw [hwritten]
      refine ⟨isPlain_lasts.put_file hbasePlain hwritable bytes,
        h.grows.trans (hbaseKept.toGrowsTo.trans (hwritable.growsTo_put bytes)), ?_⟩
      intro hups
      exact (hbaseSame hups).trans hput

/-- A path at which there is never anything but a file, however the tree grows. -/
def AlwaysFile (tree : FileTree) (path : FilePath) : Prop :=
  ∀ later place entry, GrowsTo tree later → later.lookUp true path = .ok (place, entry) →
    ∃ held, entry = .file held

theorem AlwaysFile.later {later : FileTree} (h : AlwaysFile tree path)
    (hgrows : GrowsTo tree later) : AlwaysFile later path :=
  fun last place entry hlater hl => h last place entry (hgrows.trans hlater) hl

theorem alwaysFile_of_lookUp
    (h : IsSearchable path → ∃ place held, tree.lookUp true path = .ok (place, .file held)) :
    AlwaysFile tree path := by
  intro later place entry hgrows hl
  obtain ⟨_, _, hr, _⟩ := lookUp_eq_ok_iff.mp hl
  obtain ⟨source, held, hsource⟩ := h (resolve_eq_ok_iff.mp hr).1
  obtain ⟨other, hother⟩ := hgrows.lookUp_file hsource
  obtain ⟨_, rfl⟩ := Prod.mk.inj (Except.ok.inj (hl.symm.trans hother))
  exact ⟨other, rfl⟩

theorem alwaysFile_of_listed (hformed : tree.IsWellFormed) {blobs : List String}
    (h : store.list container tree = .ok blobs) (hmem : blob ∈ blobs)
    (hpath : store.blobPath container blob = .ok path) : AlwaysFile tree path := by
  refine alwaysFile_of_lookUp fun hsearch => ?_
  obtain ⟨place, held, hstored⟩ := stored?_of_listed hformed h hmem hpath hsearch
  obtain ⟨found, hfound, hseen⟩ := stored?_eq_some_iff.mp hstored
  obtain rfl : path = found := Except.ok.inj (hpath.symm.trans hfound)
  exact ⟨place, held, hseen⟩

theorem GrownAt.copy (h : GrownAt store.root start tree) {fromContainer fromBlob : String}
    (hsource : ∀ path, store.blobPath fromContainer fromBlob = .ok path → AlwaysFile tree path)
    (container blob : String) :
    GrownAt store.root start
      (store.copy container blob fromContainer fromBlob .never tree).2 := by
  rcases copy_cases store container blob fromContainer fromBlob .never tree with
    ⟨_, hfailed⟩ | ⟨path, place, entry, hpath, hfound, hcopy⟩
  · rw [hfailed]
    exact h
  · obtain ⟨held, rfl⟩ :=
      hsource path hpath tree place entry (KeptBy.refl tree).toGrowsTo hfound
    rw [hcopy]
    exact h.upload (entryAt_of_lookUp hfound) container blob

end BlobStore

end MediaMigration
