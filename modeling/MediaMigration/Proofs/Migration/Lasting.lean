import MediaMigration.Proofs.Migration.FileUploads
import MediaMigration.Proofs.Migration.Units

/-!
# What lasts through a migration

A migration changes its session in few ways: the mapper remembers templates, the token is
looked at, and calls return. A relation that each of these respects holds between the
session before and after any number of units. Such are the growth of the log and, for a plan,
that nothing but listings is logged and the tree stays as it is.
-/

namespace MediaMigration

open FileTree

/-- A relation between an earlier and a later session that nothing a migration does in a mode
can break. Only a run uploads and copies. -/
structure Lasts (migration : Migration) (mode : Mode) (relation : Session → Session → Prop) :
    Prop where
  refl : ∀ session, relation session session
  trans : ∀ {first second third}, relation first second → relation second third →
    relation first third
  mapper : ∀ session mapper, relation session { session with mapper }
  looked : ∀ session, relation session (session.looked migration.cancelAfter?)
  list : ∀ session container, relation session (session.list migration.store container).2
  upload : mode = .run → ∀ session container blob place,
    relation session
      (session.upload migration.store migration.cancelAfter? container blob (.fileAt place)).2
  copy : mode = .run → ∀ session container blob fromContainer fromBlob,
    relation session
      (session.copy migration.store migration.cancelAfter? container blob fromContainer
        fromBlob).2

namespace Migration

/-! ## What a unit does to its session -/

theorem copyBlobs_invariant {migration : Migration} (invariant : Session → Prop)
    {container : String} {placement : Placement} {blobs : List String} {session : Session}
    (hcopy : ∀ blob ∈ blobs, ∀ session, invariant session →
      invariant (session.copy migration.store migration.cancelAfter? placement.container
        (placement.blobName blob) container blob).2)
    (h : invariant session) :
    invariant (migration.copyBlobs container placement blobs session).2 := by
  induction blobs generalizing session with
  | nil => exact h
  | cons blob rest ih =>
      have hfirst := hcopy blob (by simp) session h
      unfold copyBlobs
      split
      · next error middle hresult =>
          rw [hresult] at hfirst
          exact hfirst
      · next count middle hresult =>
          rw [hresult] at hfirst
          exact ih (fun other hother => hcopy other (List.mem_cons_of_mem _ hother)) hfirst

/-- A container is expanded, then listed if it is not in place, and in a run its blobs are
copied. -/
theorem migrateContainer_session (migration : Migration) (mode : Mode) (container : Container)
    (session : Session) :
    ∃ mapper,
      let started : Session := { session with mapper }
      let listed := (started.list migration.store container.name).2
      let after := (migration.migrateContainer mode container session).2
      after = started ∨ after = listed ∨
        ∃ placement blobs, mode = .run ∧
          (session.mapper.expandContainer container migration.templates.container.text).1 =
            .ok placement ∧
          migration.store.list container.name session.tree = .ok blobs ∧
          after = (migration.copyBlobs container.name placement blobs listed).2 := by
  unfold migrateContainer
  cases session.mapper.expandContainer container migration.templates.container.text with
  | mk answer mapper =>
      refine ⟨mapper, ?_⟩
      cases answer with
      | error error => exact .inl rfl
      | ok placement =>
          simp only
          split
          · exact .inl rfl
          · right
            split
            · next error listed hlisted =>
                left
                rw [hlisted]
            · next blobs listed hlisted =>
                have hblobs : migration.store.list container.name session.tree = .ok blobs :=
                  congrArg Prod.fst hlisted
                rw [hlisted]
                cases mode with
                | plan => exact .inl rfl
                | run =>
                    right
                    refine ⟨placement, blobs, rfl, rfl, hblobs, ?_⟩
                    simp only
                    split
                    · next hlast => rw [hlast]
                    · next hlast => rw [hlast]

theorem migrateAsset_session (migration : Migration) (mode : Mode) (manifest : Manifest)
    (entry : AssetEntry) (session : Session) :
    ∃ mapper,
      let started : Session := { session with mapper }
      let after := (migration.migrateAsset mode manifest entry session).2
      after = started ∨
        ∃ placement files, mode = .run ∧
          (session.mapper.expandAsset entry.asset (.ofManifest manifest)
            migration.templates.path.text).1.1 = .ok placement ∧
          CollectedFile.collect session.tree migration.sourceRoot entry.files = .ok files ∧
          after = (migration.uploadFiles placement files started).2 := by
  unfold migrateAsset
  cases session.mapper.expandAsset entry.asset (.ofManifest manifest)
      migration.templates.path.text with
  | mk expanded mapper =>
      obtain ⟨answer, lookups⟩ := expanded
      refine ⟨mapper, ?_⟩
      cases answer with
      | error error => exact .inl rfl
      | ok placement =>
          simp only
          cases hfiles : CollectedFile.collect session.tree migration.sourceRoot entry.files with
          | error error => exact .inl rfl
          | ok files =>
              cases mode with
              | plan => exact .inl rfl
              | run =>
                  right
                  refine ⟨placement, files, rfl, rfl, rfl, ?_⟩
                  simp only
                  split
                  · next hlast => rw [hlast]
                  · next hlast => rw [hlast]

theorem mapKey_session (migration : Migration) (key : ContentKey) (session : Session) :
    ∃ mapper, (migration.mapKey key session).2 = { session with mapper } := by
  unfold mapKey
  cases session.mapper.expandKey key (migration.templates.key.map Template.text) with
  | mk answer mapper =>
      cases answer with
      | error error => exact ⟨mapper, rfl⟩
      | ok name =>
          cases migration.templates.keyAddress with
          | none => exact ⟨mapper, rfl⟩
          | some template =>
              simp only
              split
              · exact ⟨_, rfl⟩
              · exact ⟨_, rfl⟩

end Migration

namespace Lasts

variable {migration : Migration} {mode : Mode} {relation : Session → Session → Prop}

theorem copyBlobs (h : Lasts migration mode relation) (hrun : mode = .run)
    (container : String) (placement : Placement) (blobs : List String) (session : Session) :
    relation session (migration.copyBlobs container placement blobs session).2 := by
  apply Migration.copyBlobs_invariant (relation session) _ (h.refl session)
  intro blob _ middle hmiddle
  exact h.trans hmiddle (h.copy hrun middle _ _ container blob)

theorem uploadFiles (h : Lasts migration mode relation) (hrun : mode = .run)
    (placement : Placement) (files : List CollectedFile) (session : Session) :
    relation session (migration.uploadFiles placement files session).2 := by
  apply Migration.uploadFiles_invariant (relation session) _ (h.refl session)
  intro file _ middle place entry hmiddle _
  exact h.trans hmiddle (h.upload hrun middle _ _ place)

theorem migrateContainer (h : Lasts migration mode relation) (container : Container)
    (session : Session) :
    relation session (migration.migrateContainer mode container session).2 := by
  obtain ⟨mapper, hafter | hafter | ⟨placement, blobs, hrun, _, _, hafter⟩⟩ :=
    migration.migrateContainer_session mode container session
  · rw [hafter]
    exact h.mapper session mapper
  · rw [hafter]
    exact h.trans (h.mapper session mapper) (h.list _ container.name)
  · have hlisted := h.trans (h.mapper session mapper) (h.list _ container.name)
    rw [hafter]
    exact h.trans hlisted (h.copyBlobs hrun container.name placement blobs _)

theorem migrateAsset (h : Lasts migration mode relation) (manifest : Manifest)
    (entry : AssetEntry) (session : Session) :
    relation session (migration.migrateAsset mode manifest entry session).2 := by
  obtain ⟨mapper, hafter | ⟨placement, files, hrun, _, _, hafter⟩⟩ :=
    migration.migrateAsset_session mode manifest entry session
  · rw [hafter]
    exact h.mapper session mapper
  · rw [hafter]
    exact h.trans (h.mapper session mapper) (h.uploadFiles hrun placement files _)

theorem mapKey (h : Lasts migration mode relation) (key : ContentKey) (session : Session) :
    relation session (migration.mapKey key session).2 := by
  obtain ⟨mapper, hafter⟩ := migration.mapKey_session key session
  rw [hafter]
  exact h.mapper session mapper

theorem migrateUnit (h : Lasts migration mode relation) (manifest : Manifest)
    (unit : MigrationUnit) (session : Session) :
    relation session (migration.migrateUnit mode manifest unit session).2 := by
  cases unit with
  | container container => exact h.migrateContainer container session
  | asset entry => exact h.migrateAsset manifest entry session
  | key key => exact h.mapKey key session

theorem attempt {α β : Type} {name : α → String}
    {step : α → Session → Except MigrationError β × Session}
    (h : Lasts migration mode relation)
    (hstep : ∀ unit session, relation session (step unit session).2) (units : List α)
    (session : Session) :
    relation session (migration.attempt name step units session).2 :=
  Migration.attempt_relates relation h.refl h.trans h.looked hstep units session

theorem attemptUnits (h : Lasts migration mode relation) (manifest : Manifest)
    (units : List MigrationUnit) (session : Session) :
    relation session (migration.attemptUnits mode manifest units session).2 :=
  h.attempt (h.migrateUnit manifest) units session

theorem execute (h : Lasts migration mode relation) (manifest : Manifest)
    (session : Session) : relation session (migration.execute mode manifest session).2 := by
  rw [Migration.session_execute]
  exact h.attemptUnits manifest manifest.units session

end Lasts

namespace Session

theorem log_grows (migration : Migration) (mode : Mode) :
    Lasts migration mode fun session later => session.log <+: later.log where
  refl session := List.prefix_refl session.log
  trans h g := h.trans g
  mapper session _ := List.prefix_refl session.log
  looked session := by
    simp only [log_looked, List.prefix_rfl]
  list session _ := List.prefix_append session.log _
  upload _ session _ _ _ := List.prefix_append session.log _
  copy _ session _ _ _ _ := List.prefix_append session.log _

/-- A store that replaces nothing keeps every entry, with its content. -/
theorem keeps_entries {migration : Migration} (hmode : migration.store.overwrite = false)
    (mode : Mode) : Lasts migration mode fun session later => KeptBy session.tree later.tree where
  refl session := .refl session.tree
  trans h g := h.trans g
  mapper session _ := .refl session.tree
  looked session := by
    rw [tree_looked]
    exact .refl session.tree
  list session _ := .refl session.tree
  upload _ _ _ _ _ := BlobStore.upload_keeps hmode
  copy _ _ _ _ _ _ := BlobStore.copy_keeps hmode

def OnlyLists (session later : Session) : Prop :=
  later.tree = session.tree ∧
    ∃ listings, later.log = session.log ++ listings ∧
      ∀ logged ∈ listings, ∃ container, logged.call = .list container

theorem OnlyLists.of_same {session later : Session} (htree : later.tree = session.tree)
    (hlog : later.log = session.log) : session.OnlyLists later :=
  ⟨htree, [], by rw [hlog, List.append_nil], by simp⟩

theorem onlyLists_plan (migration : Migration) : Lasts migration .plan OnlyLists where
  refl session := .of_same rfl rfl
  trans := by
    rintro first second third ⟨htree, listings, hlog, hlist⟩ ⟨htree', listings', hlog', hlist'⟩
    refine ⟨htree'.trans htree, listings ++ listings', ?_, ?_⟩
    · rw [hlog', hlog, List.append_assoc]
    · intro logged hmem
      rcases List.mem_append.mp hmem with hfirst | hsecond
      · exact hlist logged hfirst
      · exact hlist' logged hsecond
  mapper session _ := .of_same rfl rfl
  looked session :=
    .of_same (session.tree_looked migration.cancelAfter?)
      (session.log_looked migration.cancelAfter?)
  list session container := by
    refine ⟨rfl, _, rfl, ?_⟩
    intro logged hmem
    rw [List.mem_singleton] at hmem
    exact ⟨container, by rw [hmem]⟩
  upload hrun := absurd hrun (by simp)
  copy hrun := absurd hrun (by simp)

end Session

end MediaMigration
