import MediaMigration.Proofs.Migration.ContainerCopy

/-!
# Copies of containers that replace nothing

A container is copied as it was listed when its turn came. A store that keeps existing blobs gives
each copy a file that was not there before, so no copy takes the place of a listed blob, not even
where the target lies inside the container itself, and none takes the place of another copy. What
has been copied stays: whatever the run does afterwards, for other containers or for assets, keeps
every entry of the tree.
-/

namespace MediaMigration

open FileTree BlobStore

namespace BlobStore

variable {store : BlobStore} {container blob : String} {placement : Placement}
  {before after last : FileTree}

theorem Duplicates.kept (h : Duplicates store container placement blob before after)
    (hkept : KeptBy after last) : Duplicates store container placement blob before last := by
  obtain ⟨source, target, content, hs, hsource, htarget⟩ := h
  exact ⟨source, target, content, hs, stored?_kept hkept hsource, stored?_kept hkept htarget⟩

/-- Copies that are new files are apart from each other, and from all that was there before. -/
theorem NewBlobs.copiesApart (container : String) {blobs : List String}
    (h : NewBlobs store before after
      (blobs.map fun blob => (placement.container, placement.blobName blob))) :
    CopiesApart store container placement blobs before after := by
  constructor
  · have hapart := h.apart
    rw [List.map_map] at hapart
    exact hapart
  · intro blob hblob source hsource hsame
    obtain ⟨place, content, hstored, hfree⟩ := h.fresh _ (List.mem_map_of_mem hblob)
    rw [place?_eq_of_stored? hstored] at hsame
    -- a blob that the container had was a file already, the copy was nothing yet
    obtain ⟨⟨spot, held⟩, hheld, rfl⟩ := Option.map_eq_some_iff.mp hsame.symm
    rw [entryAt_of_stored? hheld] at hfree
    exact absurd hfree (by simp)

end BlobStore

namespace Migration

variable {migration : Migration} {placement : Placement} {session later : Session}

/-- The copies of blobs one after the other are new files of their own. -/
theorem copyBlobs_newBlobs (hmode : migration.store.overwrite = false) {container : String}
    {blobs : List String}
    (h : migration.copyBlobs container placement blobs session = (.ok (), later)) :
    NewBlobs migration.store session.tree later.tree
      (blobs.map fun blob => (placement.container, placement.blobName blob)) := by
  induction blobs generalizing session with
  | nil =>
      obtain rfl : session = later := congrArg Prod.snd h
      exact newBlobs_nil (.refl session.tree)
  | cons blob rest ih =>
      obtain ⟨count, middle, hcopy, hrest⟩ := copyBlobs_cons h
      obtain rfl : _ = middle := congrArg Prod.snd hcopy
      obtain ⟨_, place, bytes, _, hstores, _⟩ := copy_ok hmode (congrArg Prod.fst hcopy)
      exact hstores.newBlobs.append (ih hrest)

/-- A container that is migrated elsewhere has all its blobs copied. -/
theorem migrateContainer_completes (hmode : migration.store.overwrite = false)
    {container : Container} {copy : ContainerCopy} (hformed : session.tree.IsWellFormed)
    (h : (migration.migrateContainer .run container session).1 = .ok copy)
    (hmoved : copy.placement ≠ ⟨container.name, ""⟩) :
    ∃ blobs, migration.store.list container.name session.tree = .ok blobs ∧
      copy.blobs = blobs.length ∧
      ∀ blob ∈ blobs, Duplicates migration.store container.name copy.placement blob session.tree
        (migration.migrateContainer .run container session).2.tree := by
  rcases migrateContainer_ok h with
    ⟨hplace, _⟩ | ⟨blobs, listed, hlist, hcount, _, htree, hcopies⟩
  · exact absurd hplace hmoved
  · have hheld := copyBlobs_held hformed hlist hcopies
    have hapart := (copyBlobs_newBlobs hmode hcopies).copiesApart container.name
    rw [← htree] at hheld ⊢
    exact ⟨blobs, htree ▸ hlist, hcount, copyBlobs_duplicates hcopies hheld hapart⟩

theorem execute_keeps_containers (hmode : migration.store.overwrite = false) (manifest : Manifest)
    (session : Session) :
    KeptBy (migration.attemptContainers manifest session).2.tree
      (migration.execute .run manifest session).2.tree := by
  have hkeeps := Session.keeps_entries hmode .run
  obtain ⟨_, hlast⟩ | ⟨_, hkept⟩ := execute_phases hmode manifest session
  · rw [hlast]
    exact .refl _
  · have hassets : KeptBy (migration.attemptContainers manifest session).2.tree
        (migration.attemptAssets manifest
          (migration.attemptContainers manifest session).2).2.tree :=
      hkeeps.attempt (hkeeps.migrateAsset manifest) manifest.assets _
    exact hassets.trans hkept

/-- At the end of a run over a store that replaces nothing, every container that is reported as
migrated, and was not in place already, has been copied as a whole. As many blobs are reported as
were listed when its turn came. Each of these has the bytes that it had then, and its copy has the
same, also if the copies were put into the container itself or beside those of other containers. The
run may be cancelled at any moment. -/
theorem run_completes_copies (templates : Templates) (root sourceRoot : FilePath)
    (cancelAfter? : Option Nat) (manifest : Manifest) (session : Session)
    (hformed : session.tree.IsWellFormed) :
    let migration : Migration := ⟨templates, keeping root, sourceRoot, cancelAfter?⟩
    let run := migration.execute .run manifest session
    ∀ index unit copy, run.1.containers[index]? = some ⟨unit, .ok copy⟩ →
      ∃ container, manifest.containers[index]? = some container ∧ unit = container.name ∧
        (copy.placement ≠ ⟨container.name, ""⟩ →
          let before := (migration.sessionBeforeContainer manifest index session).tree
          ∃ blobs, (keeping root).list container.name before = .ok blobs ∧
            copy.blobs = blobs.length ∧
            ∀ blob ∈ blobs,
              Duplicates (keeping root) container.name copy.placement blob before run.2.tree) := by
  intro migration run index unit copy hreport
  have hmode : migration.store.overwrite = false := rfl
  rw [containers_execute] at hreport
  obtain ⟨container, hcontainer, hunit, houtcome, hlast⟩ := attempt_entry hreport
  refine ⟨container, hcontainer, hunit, ?_⟩
  intro hmoved
  have hbefore : (migration.sessionBeforeContainer manifest index session).tree.IsWellFormed := by
    have hlasts := lasts_of_changes isWellFormed_lasts migration .run
    rw [sessionBeforeContainer, sessionBefore, Session.tree_looked]
    exact hlasts.attempt hlasts.migrateContainer _ session hformed
  obtain ⟨blobs, hlist, hcount, hduplicates⟩ :=
    migrateContainer_completes hmode hbefore houtcome.symm hmoved
  refine ⟨blobs, hlist, hcount, ?_⟩
  have hkeeps := Session.keeps_entries hmode .run
  have hothers : KeptBy
      (migration.migrateContainer .run container
        (migration.sessionBeforeContainer manifest index session)).2.tree
      (migration.attemptContainers manifest session).2.tree := by
    rw [attemptContainers, hlast]
    exact hkeeps.attempt hkeeps.migrateContainer _ _
  intro blob hblob
  exact (hduplicates blob hblob).kept
    (hothers.trans (execute_keeps_containers hmode manifest session))

/-! ## A container that is copied into itself -/

@[simp] theorem tree_sessionBeforeContainer_zero (migration : Migration) (manifest : Manifest)
    (session : Session) :
    (migration.sessionBeforeContainer manifest 0 session).tree = session.tree := by
  rw [sessionBeforeContainer, sessionBefore, Session.tree_looked, List.take_zero, attempt]

namespace IntoItself

def templates : Templates :=
  MediaContainer.templates "media/$\x7bContainerName\x7d" (by decide +kernel)

def run : MigrationReport × Session :=
  execute ⟨templates, keeping ⟨"store"⟩, ⟨"."⟩, none⟩ .run MediaContainer.manifest
    { tree := MediaContainer.tree }

end IntoItself

theorem intoItself_outcomes :
    (IntoItself.run.1.containers.map fun unit => unit.outcome.toOption) =
      [some ⟨⟨"media", "media/"⟩, 1⟩] := by
  decide +kernel

/-- The blob is copied and kept, although the copy is a blob of the same container. -/
theorem run_completes_copy_into_itself :
    MediaContainer.tree.IsWellFormed ∧
      ∃ unit, IntoItself.run.1.containers[0]? = some ⟨unit, .ok ⟨⟨"media", "media/"⟩, 1⟩⟩ ∧
        Duplicates (keeping ⟨"store"⟩) "media" ⟨"media", "media/"⟩ "a" MediaContainer.tree
          IntoItself.run.2.tree := by
  have hformed : MediaContainer.tree.IsWellFormed := by decide +kernel
  obtain ⟨unit, hunit⟩ := exists_report_of_outcomes intoItself_outcomes
  refine ⟨hformed, unit, hunit, ?_⟩
  have hcopies := run_completes_copies IntoItself.templates ⟨"store"⟩ ⟨"."⟩ none
    MediaContainer.manifest { tree := MediaContainer.tree } hformed 0 unit
    ⟨⟨"media", "media/"⟩, 1⟩
  rw [← IntoItself.run] at hcopies
  obtain ⟨container, hcontainer, _, hcopied⟩ := hcopies hunit
  obtain rfl : { name := "media" } = container := Option.some.inj hcontainer
  obtain ⟨blobs, hlist, _, hduplicates⟩ := hcopied (by decide)
  have hlisted : (keeping ⟨"store"⟩).list "media" MediaContainer.tree = .ok ["a"] := by
    decide +kernel
  rw [tree_sessionBeforeContainer_zero] at hlist hduplicates
  obtain rfl : ["a"] = blobs := Except.ok.inj (hlisted.symm.trans hlist)
  exact hduplicates "a" (by simp)

end Migration

end MediaMigration
