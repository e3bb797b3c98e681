import MediaMigration.Proofs.BlobStore.Invariant
import MediaMigration.Proofs.BlobStore.Location
import MediaMigration.Proofs.Migration.Targets

/-!
# Containers that a migration lists

A migration lists the containers of its manifest and no others. For a name that the store accepts,
a listing is of files at or below the container in the root of the store. Any other name is put
behind the root as it is, so a listing of it may be of files elsewhere, and the migration learns
that the name is refused from the first copy only: such a container is never copied.
-/

namespace MediaMigration

open FileTree BlobStore

namespace BlobStore

theorem IsContainerName.locationOf_join {name : String} (h : IsContainerName name)
    (root : FilePath) (tree : FileTree) :
    tree.locationOf (root.join ⟨name⟩) = tree.locationOf root ++ [name] := by
  obtain ⟨habsolute, hsteps, _⟩ := h.join_spec root
  have hstep : ∀ step ∈ [name], IsNameStep step := by
    intro step hmem
    rw [List.mem_singleton.mp hmem]
    exact ⟨h.not_here, h.not_up⟩
  rw [locationOf, locationOf, startOf, startOf, habsolute, hsteps, follow_append,
    follow_names _ hstep]

/-- The names of containers are those with which a blob has a path. -/
theorem isContainerName_iff_blobPath {store : BlobStore} {name : String} :
    IsContainerName name ↔ ∃ blob path, store.blobPath name blob = .ok path := by
  constructor
  · intro h
    have hblob : IsBlobName "a" := ⟨by decide, by decide, by decide, by decide⟩
    exact ⟨"a", _, blobPath_eq_ok_iff.mpr ⟨⟨h, hblob⟩, rfl⟩⟩
  · rintro ⟨blob, path, hpath⟩
    exact (blobPath_eq_ok_iff.mp hpath).1.1

end BlobStore

/-! ## What is listed -/

/-- What has been logged since an earlier session lists no other containers than allowed ones. -/
def Session.ListsOnly (allowed : String → Prop) (session later : Session) : Prop :=
  ∃ calls, later.log = session.log ++ calls ∧
    ∀ logged ∈ calls, ∀ name, logged.call = .list name → allowed name

namespace Session

variable {allowed : String → Prop} {first session later : Session}

theorem ListsOnly.of_same (h : later.log = session.log) : session.ListsOnly allowed later :=
  ⟨[], by rw [h, List.append_nil], by simp⟩

theorem ListsOnly.trans (h : first.ListsOnly allowed session)
    (g : session.ListsOnly allowed later) : first.ListsOnly allowed later := by
  obtain ⟨calls, hlog, hcalls⟩ := h
  obtain ⟨others, hlater, hothers⟩ := g
  refine ⟨calls ++ others, by rw [hlater, hlog, List.append_assoc], fun logged hmem => ?_⟩
  exact (List.mem_append.mp hmem).elim (hcalls logged) (hothers logged)

theorem listsOnly_returned {α : Type} {call : StoreCall} {result : Except MigrationError α}
    {tree : FileTree} (hcall : ∀ name, call = .list name → allowed name) :
    session.ListsOnly allowed (session.returned call result tree).2 := by
  refine ⟨_, rfl, fun logged hmem => ?_⟩
  rw [List.mem_singleton.mp hmem]
  exact hcall

end Session

namespace Migration

variable {migration : Migration} {mode : Mode} {manifest : Manifest} {allowed : String → Prop}

theorem migrateContainer_lists {container : Container} (h : allowed container.name)
    (session : Session) :
    session.ListsOnly allowed (migration.migrateContainer mode container session).2 := by
  have hlisted : ∀ mapper, session.ListsOnly allowed
      (Session.list { session with mapper } migration.store container.name).2 := by
    intro mapper
    apply Session.listsOnly_returned
    rintro _ ⟨⟩
    exact h
  obtain ⟨mapper, hafter | hafter | ⟨placement, blobs, _, _, _, hafter⟩⟩ :=
    migration.migrateContainer_session mode container session
  · rw [hafter]
    exact .of_same rfl
  · rw [hafter]
    exact hlisted mapper
  · rw [hafter]
    apply copyBlobs_invariant (session.ListsOnly allowed) _ (hlisted mapper)
    intro blob _ middle hmiddle
    exact hmiddle.trans (Session.listsOnly_returned (by simp))

theorem migrateAsset_lists (entry : AssetEntry) (session : Session) :
    session.ListsOnly allowed (migration.migrateAsset mode manifest entry session).2 := by
  obtain ⟨mapper, hafter | ⟨placement, files, _, _, _, hafter⟩⟩ :=
    migration.migrateAsset_session mode manifest entry session
  · rw [hafter]
    exact .of_same rfl
  · rw [hafter]
    apply uploadFiles_invariant (session.ListsOnly allowed)
    · intro file _ middle place found hmiddle _
      exact hmiddle.trans (Session.listsOnly_returned (by simp))
    · exact .of_same rfl

theorem migrateUnit_lists {unit : MigrationUnit}
    (h : ∀ container, unit = .container container → allowed container.name) (session : Session) :
    session.ListsOnly allowed (migration.migrateUnit mode manifest unit session).2 := by
  cases unit with
  | container container => exact migrateContainer_lists (h container rfl) session
  | asset entry => exact migrateAsset_lists entry session
  | key key =>
      obtain ⟨mapper, hafter⟩ := migration.mapKey_session key session
      simp only [migrateUnit, hafter]
      exact .of_same rfl

/-- A migration lists containers of its manifest only. -/
theorem execute_lists (migration : Migration) (mode : Mode) (manifest : Manifest)
    (session : Session) :
    session.ListsOnly (fun name => ∃ container ∈ manifest.containers, container.name = name)
      (migration.execute mode manifest session).2 := by
  rw [session_execute, attemptUnits]
  apply attempt_invariant (session.ListsOnly fun name =>
    ∃ container ∈ manifest.containers, container.name = name)
  · intro middle hmiddle
    exact hmiddle.trans (.of_same (middle.log_looked migration.cancelAfter?))
  · intro unit hunit middle hmiddle
    refine hmiddle.trans (migrateUnit_lists ?_ middle)
    rintro container rfl
    have hmem : container ∈ manifest.containers := by simpa [Manifest.units] using hunit
    exact ⟨container, hmem, rfl⟩
  · exact .of_same rfl

/-! ## Names that are refused -/

theorem copyBlobs_refused (migration : Migration) {container : String}
    (h : ¬ IsContainerName container) (placement : Placement) (blobs : List String)
    (session : Session) :
    (migration.copyBlobs container placement blobs session).2.tree = session.tree ∧
      ((migration.copyBlobs container placement blobs session).1 = .ok () → blobs = []) := by
  cases blobs with
  | nil => exact ⟨rfl, fun _ => rfl⟩
  | cons blob rest =>
      obtain ⟨error, hcopy⟩ : ∃ error, migration.store.copy placement.container
          (placement.blobName blob) container blob (session.cancellation migration.cancelAfter?)
          session.tree = (.error error, session.tree) :=
        copy_refused (fun hnames => h hnames.2.1) _ _
      simp [copyBlobs, Session.copy, hcopy, Session.returned]

/-- A container whose name is refused leaves the tree as it is, and is reported as migrated by a
run only if nothing was listed. -/
theorem migrateContainer_refused {container : Container} (h : ¬ IsContainerName container.name)
    (mode : Mode) (session : Session) :
    (migration.migrateContainer mode container session).2.tree = session.tree ∧
      (mode = .run → ∀ copy,
        (migration.migrateContainer mode container session).1 = .ok copy → copy.blobs = 0) := by
  unfold migrateContainer
  cases session.mapper.expandContainer container migration.templates.container.text with
  | mk answer mapper =>
      cases answer with
      | error error => exact ⟨rfl, by simp⟩
      | ok placement =>
          simp only
          split
          · refine ⟨rfl, fun _ copy hcopy => ?_⟩
            rw [← Except.ok.inj hcopy]
          · cases hlist : migration.store.list container.name session.tree with
            | error error => simp [Session.list, hlist, Session.returned]
            | ok blobs =>
                simp only [Session.list, hlist, Session.returned]
                cases mode with
                | plan => exact ⟨rfl, by simp⟩
                | run =>
                    obtain ⟨htree, hnone⟩ := migration.copyBlobs_refused h placement blobs _
                    simp only
                    split
                    · next error last hcopies =>
                        rw [hcopies] at htree
                        exact ⟨htree, by simp⟩
                    · next last hcopies =>
                        rw [hcopies] at htree hnone
                        refine ⟨htree, fun _ copy hcopy => ?_⟩
                        rw [← Except.ok.inj hcopy, hnone rfl]
                        rfl

theorem refused_container_is_not_written (store : BlobStore) {name : String}
    (h : ¬ IsContainerName name) :
    (∀ blob content cancellation tree, ∃ error,
      store.upload name blob content cancellation tree = ⟨.error error, [], tree⟩) ∧
    ∀ container blob fromContainer fromBlob cancellation tree,
      container = name ∨ fromContainer = name → ∃ error,
        store.copy container blob fromContainer fromBlob cancellation tree =
          (.error error, tree) := by
  constructor
  · intro blob content cancellation tree
    exact ⟨_, upload_refused (fun hnames => h hnames.1) content cancellation tree⟩
  · rintro container blob fromContainer fromBlob cancellation tree (rfl | rfl)
    · exact copy_refused (fun hnames => h hnames.1.1) cancellation tree
    · exact copy_refused (fun hnames => h hnames.2.1) cancellation tree

/-- If all containers of a manifest have names that the store accepts, whatever a plan or a run
lists is at or below a container: the path of the container is that of the root with this name
behind it, what is listed are the ways to files from where it leads, and without links it leads to
this name in the root. With a container whose name is refused nothing is written, and a run does
not report it as migrated unless nothing was listed for it. -/
theorem listings_stay_in_containers (migration : Migration) (mode : Mode) {manifest : Manifest}
    (hnames : ∀ container ∈ manifest.containers, IsContainerName container.name)
    (session : Session) :
    (∃ calls, (migration.execute mode manifest session).2.log = session.log ++ calls ∧
      ∀ logged ∈ calls, ∀ name, logged.call = .list name →
        (∃ blob path, migration.store.blobPath name blob = .ok path) ∧
        (migration.store.root.join ⟨name⟩).components =
          migration.store.root.components ++ [.name name] ∧
        ∀ blobs, migration.store.list name logged.tree = .ok blobs → ∀ blob ∈ blobs,
          ∃ place entry names held,
            logged.tree.lookUp true (migration.store.root.join ⟨name⟩) = .ok (place, entry) ∧
            logged.tree.entryAt (place ++ names) = some (.file held) ∧
            blob = FilePath.joinNames names ∧
            (logged.tree.IsPlain →
              place = logged.tree.locationOf migration.store.root ++ [name])) ∧
    ∀ container : Container, ¬ IsContainerName container.name →
      (∀ blob content cancellation tree, ∃ error,
        migration.store.upload container.name blob content cancellation tree =
          ⟨.error error, [], tree⟩) ∧
      (∀ target blob source fromBlob cancellation tree,
        target = container.name ∨ source = container.name → ∃ error,
          migration.store.copy target blob source fromBlob cancellation tree =
            (.error error, tree)) ∧
      ∀ session : Session,
        (migration.migrateContainer mode container session).2.tree = session.tree ∧
        (mode = .run → ∀ copy,
          (migration.migrateContainer mode container session).1 = .ok copy →
            copy.blobs = 0) := by
  constructor
  · obtain ⟨calls, hlog, hcalls⟩ := migration.execute_lists mode manifest session
    refine ⟨calls, hlog, fun logged hlogged name hcall => ?_⟩
    obtain ⟨container, hcontainer, rfl⟩ := hcalls logged hlogged name hcall
    have hname := hnames container hcontainer
    refine ⟨isContainerName_iff_blobPath.mp hname, hname.components_join _, ?_⟩
    intro blobs hlist blob hblob
    obtain ⟨place, entry, names, held, hplace, hfile, hway⟩ := file_of_listed hlist hblob
    refine ⟨place, entry, names, held, hplace, hfile, hway, fun hplain => ?_⟩
    rw [hplain.place_of_lookUp hplace, hname.locationOf_join]
  · intro container hrefused
    obtain ⟨hupload, hcopy⟩ := refused_container_is_not_written migration.store hrefused
    exact ⟨hupload, hcopy, fun session => migrateContainer_refused hrefused mode session⟩

namespace BesideStore

def tree : FileTree :=
  ((((FileTree.empty.put ["store"] .directory).put ["store", "media"] .directory).put
    ["store", "media", "a"] (.file [1])).put ["secret"] .directory).put
    ["secret", "key"] (.file [2])

def copying : Migration :=
  ⟨DottedNames.archiving.templates, keeping ⟨"store"⟩, ⟨"."⟩, none⟩

end BesideStore

theorem first_call_of_copying :
    ((BesideStore.copying.execute .run { containers := [{ name := "media" }] }
        { tree := BesideStore.tree }).2.log.head?.map fun logged =>
          (logged.call, BesideStore.copying.store.list "media" logged.tree,
            logged.tree.lookUp true (BesideStore.copying.store.root.join ⟨"media"⟩))) =
      some (.list "media", .ok ["a"], .ok (["store", "media"], .directory)) := by
  decide +kernel

theorem listings_stay_in_media :
    ∃ logged ∈ (BesideStore.copying.execute .run { containers := [{ name := "media" }] }
        { tree := BesideStore.tree }).2.log,
      logged.call = .list "media" ∧
      BesideStore.copying.store.list "media" logged.tree = .ok ["a"] ∧
      ∃ names held, logged.tree.entryAt (["store", "media"] ++ names) = some (.file held) ∧
        "a" = FilePath.joinNames names := by
  have hnames : ∀ container ∈ ({ containers := [{ name := "media" }] } : Manifest).containers,
      IsContainerName container.name := by
    intro container hmem
    obtain rfl := List.mem_singleton.mp hmem
    exact ⟨by decide, by decide, by decide, by decide⟩
  obtain ⟨⟨calls, hlog, hcalls⟩, _⟩ := listings_stay_in_containers BesideStore.copying .run hnames
    { tree := BesideStore.tree }
  obtain ⟨logged, hfirst, hlogged⟩ := Option.map_eq_some_iff.mp first_call_of_copying
  simp only [Prod.mk.injEq] at hlogged
  obtain ⟨hcall, hlist, hroot⟩ := hlogged
  have hmem := List.mem_of_head? hfirst
  have hnew : logged ∈ calls := by simpa [hlog] using hmem
  obtain ⟨_, _, hfiles⟩ := hcalls logged hnew "media" hcall
  obtain ⟨place, entry, names, held, hplace, hfile, hway, _⟩ := hfiles _ hlist "a" (by simp)
  obtain ⟨rfl, rfl⟩ := Prod.mk.inj (Except.ok.inj (hroot.symm.trans hplace))
  exact ⟨logged, hmem, hcall, hlist, names, held, hfile, hway⟩

/-- A name with a way up is listed beside the root of the store and planned to be copied, although
every copy refuses it. -/
theorem listing_leaves_root :
    BesideStore.copying.store.list "../secret" BesideStore.tree = .ok ["key"] ∧
      BesideStore.tree.entryAt ["secret", "key"] = some (.file [2]) ∧
      (BesideStore.copying.store.copy "copies" "key" "../secret" "key" .never
        BesideStore.tree).1 = .error (.uploadFailed "../secret" "key" namesRefused) ∧
      ((BesideStore.copying.execute .plan { containers := [{ name := "../secret" }] }
          { tree := BesideStore.tree }).1.containers.map fun unit => unit.outcome.toOption) =
        [some ⟨⟨"copies", ""⟩, 1⟩] := by
  decide +kernel

end Migration

end MediaMigration
