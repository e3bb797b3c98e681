import MediaMigration.Proofs.BlobStore.Deposits
import MediaMigration.Proofs.BlobStore.Location
import MediaMigration.Proofs.Migration.Lasting
import MediaMigration.Proofs.Migration.Run

/-!
# Copies of containers that may overwrite

A container is copied blob by blob, and a store that overwrites cuts each target to nothing
first. As long as no target is a blob of the container itself, and no two targets are one
file, all blobs arrive and the container keeps them. In a tree without links the names tell
whether that is so, and copies into another container are always apart. Where a target is its
own source, the blob is lost although the container is reported as migrated: a prefix that is a
slash alone names the container itself, and it is not taken for being in place.
-/

namespace MediaMigration

open FileTree BlobStore

namespace BlobStore

/-- The files that copies of the blobs of a container have become are files of their own:
apart from each other and from the blobs that were to be copied. -/
structure CopiesApart (store : BlobStore) (container : String) (placement : Placement)
    (blobs : List String) (before after : FileTree) : Prop where
  distinct : (blobs.map fun blob =>
    store.place? after (placement.container, placement.blobName blob)).Nodup
  no_source : ∀ blob ∈ blobs, ∀ source ∈ blobs,
    store.place? after (placement.container, placement.blobName blob) ≠
      store.place? before (container, source)

/-- No copy of a blob is to take the place of a blob of the container, as far as names tell. -/
def LeavesSources (container : String) (placement : Placement) (blobs : List String) : Prop :=
  placement.container ≠ container ∨
    ∀ blob ∈ blobs, ∀ source ∈ blobs,
      FilePath.moves ⟨placement.blobName blob⟩ ≠ FilePath.moves ⟨source⟩

/-- A blob keeps its bytes, and its copy has the same. -/
def Duplicates (store : BlobStore) (container : String) (placement : Placement) (blob : String)
    (before after : FileTree) : Prop :=
  ∃ source target content, store.stored? container blob before = some (source, content) ∧
    store.stored? container blob after = some (source, content) ∧
    store.stored? placement.container (placement.blobName blob) after = some (target, content)

variable {store : BlobStore} {container blob : String} {tree later : FileTree}

theorem isSearchable_of_stored? {found : Location × Bytes}
    (hs : store.stored? container blob tree = some found) :
    ∃ path, store.blobPath container blob = .ok path ∧ IsSearchable path := by
  obtain ⟨path, hpath, hfound⟩ := stored?_eq_some_iff.mp hs
  obtain ⟨_, _, hr, _⟩ := lookUp_eq_ok_iff.mp hfound
  exact ⟨path, hpath, (resolve_eq_ok_iff.mp hr).1⟩

/-- In a tree without links, copies that leave the sources by their names are files of their
own. -/
theorem copiesApart_of_leavesSources {before after : FileTree} (hplain : before.IsPlain)
    (hafter : after.IsPlain) (hworkDir : after.workDir = before.workDir) {placement : Placement}
    (hends : placement.EndsWithSlash) {blobs : List String}
    (hlist : store.list container before = .ok blobs)
    (hheld : ∀ blob ∈ blobs, ∃ found, store.stored? container blob before = some found)
    (hcopied : ∀ blob ∈ blobs, ∃ place,
      store.place? after (placement.container, placement.blobName blob) = some place)
    (hleaves : LeavesSources container placement blobs) :
    CopiesApart store container placement blobs before after := by
  have hnamed : ∀ blob ∈ blobs, FilePath.joinNames (FilePath.moves ⟨blob⟩) = blob := by
    intro blob hblob
    obtain ⟨found, hfound⟩ := hheld blob hblob
    obtain ⟨path, hpath, _⟩ := isSearchable_of_stored? hfound
    have hne := ne_empty_of_isPlainName (blobPath_eq_ok hpath).blob_plain
    exact joinNames_moves_of_listed hplain.toIsWellFormed hlist hblob hne
  constructor
  · apply List.Nodup.map_on _ (nodup_list hplain.toIsWellFormed hlist)
    intro first hfirst second hsecond hsame
    obtain ⟨place, hplace⟩ := hcopied first hfirst
    have hfirstPlace := place?_eq_of_isPlain hafter hplace
    have hsecondPlace := place?_eq_of_isPlain hafter (hsame.symm.trans hplace)
    have htails := List.append_cancel_left (hfirstPlace.symm.trans hsecondPlace)
    have hmoves := (List.cons.inj htails).2
    rw [Placement.moves_blobName hends, Placement.moves_blobName hends] at hmoves
    have hnames := List.append_cancel_left hmoves
    rw [← hnamed first hfirst, ← hnamed second hsecond, hnames]
  · intro blob hblob source hsource hsame
    obtain ⟨place, hplace⟩ := hcopied blob hblob
    obtain ⟨⟨spot, content⟩, hspot⟩ := hheld source hsource
    have htarget := place?_eq_of_isPlain hafter hplace
    have hfrom := place?_eq_of_isPlain hplain (hsame.symm.trans hplace)
    rw [FileTree.locationOf_eq hworkDir] at htarget
    have htails := List.append_cancel_left (htarget.symm.trans hfrom)
    obtain ⟨hcontainer, hmoves⟩ := List.cons.inj htails
    rcases hleaves with hother | hnames
    · exact hother hcontainer
    · exact hnames blob hblob source hsource hmoves

end BlobStore

theorem Mapper.endsWithSlash_of_expandContainer {mapper later : Mapper} {container : Container}
    {template : String} {placement : Placement}
    (h : mapper.expandContainer container template = (.ok placement, later)) :
    placement.EndsWithSlash := by
  have hanswer := congrArg Prod.fst h
  simp only [expandContainer, expandPlacement] at hanswer
  split at hanswer
  · next name _ _ _ =>
      obtain rfl := Except.ok.inj hanswer
      exact Placement.endsWithSlash_ofName name
  · exact absurd hanswer (by simp)

namespace Migration

variable {migration : Migration} {container : String} {placement : Placement}
  {session later : Session}

/-! ## The copies one after the other -/

theorem copyBlobs_cons {blob : String} {rest : List String}
    (h : migration.copyBlobs container placement (blob :: rest) session = (.ok (), later)) :
    ∃ count middle,
      session.copy migration.store migration.cancelAfter? placement.container
        (placement.blobName blob) container blob = (.ok count, middle) ∧
      migration.copyBlobs container placement rest middle = (.ok (), later) := by
  unfold copyBlobs at h
  cases hcopy : session.copy migration.store migration.cancelAfter? placement.container
      (placement.blobName blob) container blob with
  | mk result middle =>
      simp only [hcopy] at h
      cases result with
      | error error => simp at h
      | ok count => exact ⟨count, middle, rfl, h⟩

def copyDeposit (store : BlobStore) (container : String) (placement : Placement) (blob : String) :
    Deposit :=
  ⟨(store.root.join ⟨container⟩).join ⟨blob⟩, placement.container, placement.blobName blob⟩

theorem fileOf?_copyDeposit {store : BlobStore} {tree : FileTree} {blob : String}
    {found : Location × Bytes} (hs : store.stored? container blob tree = some found) :
    tree.fileOf? (copyDeposit store container placement blob).source = some found := by
  obtain ⟨path, hpath, hfound⟩ := stored?_eq_some_iff.mp hs
  rw [copyDeposit, ← (blobPath_eq_ok hpath).path_eq]
  exact fileOf?_eq_some_iff.mpr hfound

theorem copyBlobs_cons_ok {blob : String} {rest : List String}
    (h : migration.copyBlobs container placement (blob :: rest) session = (.ok (), later)) :
    ∃ middle source held place,
      migration.store.stored? container blob session.tree = some (source, held) ∧
      Stores migration.store placement.container (placement.blobName blob) session.tree
        middle.tree place (if source = place then [] else held) ∧
      migration.copyBlobs container placement rest middle = (.ok (), later) := by
  obtain ⟨count, middle, hcopy, hrest⟩ := copyBlobs_cons h
  obtain rfl : _ = middle := congrArg Prod.snd hcopy
  obtain ⟨path, source, held, place, hpath, hheld, hstores⟩ := copy_stores (congrArg Prod.fst hcopy)
  have hstored := stored?_eq_some_iff.mpr ⟨path, hpath, fileOf?_eq_some_iff.mp hheld⟩
  exact ⟨_, source, held, place, hstored, hstores, hrest⟩

theorem copyBlobs_deposits {blobs : List String}
    (h : migration.copyBlobs container placement blobs session = (.ok (), later)) :
    Deposits migration.store (blobs.map (copyDeposit migration.store container placement))
      session.tree later.tree := by
  induction blobs generalizing session with
  | nil =>
      obtain rfl : session = later := congrArg Prod.snd h
      exact .done session.tree
  | cons blob rest ih =>
      obtain ⟨middle, source, held, place, hheld, hstores, hrest⟩ := copyBlobs_cons_ok h
      exact .next (fileOf?_copyDeposit hheld) hstores (ih hrest)

theorem copyBlobs_isSearchable {blobs : List String}
    (h : migration.copyBlobs container placement blobs session = (.ok (), later)) :
    ∀ blob ∈ blobs, ∃ path, migration.store.blobPath container blob = .ok path ∧
      IsSearchable path := by
  induction blobs generalizing session with
  | nil => simp
  | cons first rest ih =>
      obtain ⟨middle, _, _, _, hheld, _, hrest⟩ := copyBlobs_cons_ok h
      intro blob hblob
      rcases List.mem_cons.mp hblob with rfl | hblob
      · exact isSearchable_of_stored? hheld
      · exact ih hrest blob hblob

theorem copyBlobs_held {blobs : List String} {tree : FileTree} (hformed : tree.IsWellFormed)
    (hlist : migration.store.list container tree = .ok blobs)
    (h : migration.copyBlobs container placement blobs session = (.ok (), later)) :
    ∀ blob ∈ blobs, ∃ found, migration.store.stored? container blob tree = some found := by
  intro blob hblob
  obtain ⟨path, hpath, hsearch⟩ := copyBlobs_isSearchable h blob hblob
  obtain ⟨place, content, hstored⟩ := stored?_of_listed hformed hlist hblob hpath hsearch
  exact ⟨(place, content), hstored⟩

/-- Copies that are files of their own duplicate every blob. -/
theorem copyBlobs_duplicates {blobs : List String}
    (h : migration.copyBlobs container placement blobs session = (.ok (), later))
    (hheld : ∀ blob ∈ blobs, ∃ found,
      migration.store.stored? container blob session.tree = some found)
    (hapart : CopiesApart migration.store container placement blobs session.tree later.tree) :
    ∀ blob ∈ blobs,
      Duplicates migration.store container placement blob session.tree later.tree := by
  intro blob hblob
  obtain ⟨⟨source, content⟩, hs⟩ := hheld blob hblob
  have hdeposits := copyBlobs_deposits h
  have hsource : ∀ deposit ∈ blobs.map (copyDeposit migration.store container placement),
      deposit.place? migration.store later.tree ≠ some source := by
    intro deposit hdeposit
    obtain ⟨next, hnext, rfl⟩ := List.mem_map.mp hdeposit
    rw [← place?_eq_of_stored? hs]
    exact hapart.no_source next hnext blob hblob
  have hkept := hdeposits.stored?_kept hs hsource
  obtain ⟨front, rest, rfl⟩ := List.append_of_mem hblob
  rw [List.map_append, List.map_cons] at hdeposits hsource
  have hdistinct := hapart.distinct
  rw [List.map_append, List.map_cons] at hdistinct
  have hfresh := (List.nodup_cons.mp (List.nodup_append.mp hdistinct).2.1).1
  have hlast : ∀ deposit ∈ rest.map (copyDeposit migration.store container placement),
      deposit.place? migration.store later.tree ≠
        (copyDeposit migration.store container placement blob).place? migration.store
          later.tree := by
    intro deposit hdeposit hsame
    obtain ⟨next, hnext, rfl⟩ := List.mem_map.mp hdeposit
    exact hfresh (List.mem_map.mpr ⟨next, hnext, hsame⟩)
  obtain ⟨target, htarget⟩ := hdeposits.arrives (fileOf?_copyDeposit hs) hsource hlast
  exact ⟨source, target, content, hs, hkept, htarget⟩

/-! ## One container -/

theorem migrateContainer_ok {container : Container} {copy : ContainerCopy}
    (h : (migration.migrateContainer .run container session).1 = .ok copy) :
    (copy.placement = ⟨container.name, ""⟩ ∧ copy.blobs = 0 ∧
        (migration.migrateContainer .run container session).2.tree = session.tree) ∨
      ∃ blobs listed, migration.store.list container.name session.tree = .ok blobs ∧
        copy.blobs = blobs.length ∧ copy.placement.EndsWithSlash ∧
        listed.tree = session.tree ∧
        migration.copyBlobs container.name copy.placement blobs listed =
          (.ok (), (migration.migrateContainer .run container session).2) := by
  unfold migrateContainer at h ⊢
  cases hanswer : session.mapper.expandContainer container
      migration.templates.container.text with
  | mk answer mapper =>
      simp only [hanswer] at h ⊢
      cases answer with
      | error error => simp at h
      | ok placement =>
          simp only at h ⊢
          split
          · next hplace =>
              rw [if_pos hplace] at h
              obtain rfl := Except.ok.inj h
              left
              refine ⟨?_, rfl, rfl⟩
              rw [← hplace.1, ← hplace.2]
          · next hplace =>
              rw [if_neg hplace] at h
              right
              cases hlist : migration.store.list container.name session.tree with
              | error error => simp [Session.list, Session.returned, hlist] at h
              | ok blobs =>
                  simp only [Session.list, Session.returned, hlist] at h ⊢
                  cases hcopies : migration.copyBlobs container.name placement blobs
                      { session with
                        mapper,
                        log := session.log ++
                          [⟨.list container.name, none, session.tree⟩] } with
                  | mk result last =>
                      rw [hcopies] at h
                      cases result with
                      | error error => simp at h
                      | ok _ =>
                          obtain rfl := Except.ok.inj h
                          have hends := Mapper.endsWithSlash_of_expandContainer hanswer
                          refine ⟨blobs, _, rfl, rfl, hends, ?_, hcopies⟩
                          rfl

theorem lasts_of_changes {property : FileTree → Prop} (h : LastsThroughChanges property)
    (migration : Migration) (mode : Mode) :
    Lasts migration mode fun session later => property session.tree → property later.tree where
  refl _ htree := htree
  trans hfirst hsecond htree := hsecond (hfirst htree)
  mapper _ _ htree := htree
  looked session htree := by
    rw [Session.tree_looked]
    exact htree
  list _ _ htree := htree
  upload _ session container blob place htree :=
    upload_lasts h htree migration.store container blob (.fileAt place) _
  copy _ session container blob fromContainer fromBlob htree :=
    copy_lasts h htree migration.store container blob fromContainer fromBlob _

/-- A migrated container was in place, or each listed blob was there to be copied, and copies
that are files of their own duplicate every blob. -/
theorem migrateContainer_duplicates {container : Container} {copy : ContainerCopy}
    (hformed : session.tree.IsWellFormed)
    (h : (migration.migrateContainer .run container session).1 = .ok copy) :
    let after := (migration.migrateContainer .run container session).2.tree
    (copy.placement = ⟨container.name, ""⟩ ∧ copy.blobs = 0 ∧ after = session.tree) ∨
      ∃ blobs, migration.store.list container.name session.tree = .ok blobs ∧
        copy.blobs = blobs.length ∧
        (∀ blob ∈ blobs, ∃ found,
          migration.store.stored? container.name blob session.tree = some found) ∧
        (session.tree.IsPlain → LeavesSources container.name copy.placement blobs →
          CopiesApart migration.store container.name copy.placement blobs session.tree after) ∧
        (CopiesApart migration.store container.name copy.placement blobs session.tree after →
          ∀ blob ∈ blobs,
            Duplicates migration.store container.name copy.placement blob session.tree after) := by
  intro after
  rcases migrateContainer_ok h with hplace | ⟨blobs, listed, hlist, hcount, hends, htree, hcopies⟩
  · exact .inl hplace
  · right
    have hheld := copyBlobs_held hformed hlist hcopies
    refine ⟨blobs, hlist, hcount, hheld, ?_, ?_⟩
    · intro hplain hleaves
      have hafter : after.IsPlain :=
        (lasts_of_changes isPlain_lasts migration .run).migrateContainer container session hplain
      have hworkDir : after.workDir = session.tree.workDir := by
        rw [← htree]
        exact (copyBlobs_deposits hcopies).growsTo.workDir_eq
      have hcopied : ∀ blob ∈ blobs, ∃ place, migration.store.place? after
          (copy.placement.container, copy.placement.blobName blob) = some place := by
        intro blob hblob
        exact (copyBlobs_deposits hcopies).place?_of_mem _ (List.mem_map_of_mem hblob)
      exact copiesApart_of_leavesSources hplain hafter hworkDir hends hlist hheld hcopied hleaves
    · intro hapart
      rw [← htree] at hheld hapart ⊢
      exact copyBlobs_duplicates hcopies hheld hapart

/-! ## The containers of a run -/

/-- The session in which the container of this number is migrated, if the run gets there. -/
def sessionBeforeContainer (migration : Migration) (manifest : Manifest) (index : Nat)
    (session : Session) : Session :=
  migration.sessionBefore Container.name (migration.migrateContainer .run) manifest.containers
    index session

/-- When a container is reported as migrated, nothing was done because it was in place, or
all blobs that it held were listed and have been copied. If the copies are files of their
own, the container has kept all its blobs, and each copy has the bytes of its blob. In a tree
without links they are files of their own if no blob is to be copied to where another one of
the container is, and so whenever they go to another container. -/
theorem run_duplicates_containers (migration : Migration) (manifest : Manifest)
    (session : Session) (hformed : session.tree.IsWellFormed) {index : Nat} {unit : String}
    {copy : ContainerCopy}
    (h : (migration.execute .run manifest session).1.containers[index]? =
      some ⟨unit, .ok copy⟩) :
    ∃ container, manifest.containers[index]? = some container ∧ unit = container.name ∧
      let before := migration.sessionBeforeContainer manifest index session
      let after := (migration.migrateContainer .run container before).2.tree
      (copy.placement = ⟨container.name, ""⟩ ∧ copy.blobs = 0 ∧ after = before.tree) ∨
        ∃ blobs, migration.store.list container.name before.tree = .ok blobs ∧
          copy.blobs = blobs.length ∧
          (∀ blob ∈ blobs, ∃ found,
            migration.store.stored? container.name blob before.tree = some found) ∧
          (session.tree.IsPlain → LeavesSources container.name copy.placement blobs →
            CopiesApart migration.store container.name copy.placement blobs before.tree after) ∧
          (CopiesApart migration.store container.name copy.placement blobs before.tree after →
            ∀ blob ∈ blobs, Duplicates migration.store container.name copy.placement blob
              before.tree after) := by
  rw [containers_execute] at h
  obtain ⟨container, hcontainer, hunit, houtcome, _⟩ := attempt_entry h
  have hlasts : ∀ {property : FileTree → Prop}, LastsThroughChanges property →
      property session.tree →
      property (migration.sessionBeforeContainer manifest index session).tree := by
    intro property hproperty hstart
    have hcontainers := lasts_of_changes hproperty migration .run
    rw [sessionBeforeContainer, sessionBefore, Session.tree_looked]
    exact hcontainers.attempt hcontainers.migrateContainer _ session hstart
  refine ⟨container, hcontainer, hunit, ?_⟩
  rcases migrateContainer_duplicates (hlasts isWellFormed_lasts hformed) houtcome.symm with
    hplace | ⟨blobs, hlist, hcount, hheld, hapart, hduplicates⟩
  · exact .inl hplace
  · refine .inr ⟨blobs, hlist, hcount, hheld, ?_, hduplicates⟩
    intro hplain hleaves
    exact hapart (hlasts isPlain_lasts hplain) hleaves

/-! ## A container that is copied elsewhere, and one that is copied onto itself -/

namespace MediaContainer

def templates (container : String)
    (accepted : Template.firstUnknownKey? container .container = none) : Templates :=
  ⟨⟨"media", .asset, by decide +kernel⟩, ⟨container, .container, accepted⟩, none, none⟩

def store : BlobStore :=
  ⟨⟨"store"⟩, true⟩

def tree : FileTree :=
  ((FileTree.empty.put ["store"] .directory).put ["store", "media"] .directory).put
    ["store", "media", "a"] (.file [1, 2, 3])

def manifest : Manifest where
  containers := [{ name := "media" }]

def intoArchive : Migration :=
  ⟨templates "archive/$\x7bContainerName\x7d" (by decide +kernel), store, ⟨"."⟩, none⟩

/-- The template leads back into the container, with a prefix that says nothing. -/
def ontoItself : Migration :=
  ⟨templates "$\x7bContainerName\x7d/" (by decide +kernel), store, ⟨"."⟩, none⟩

end MediaContainer

theorem archive_outcome :
    ((MediaContainer.intoArchive.execute .run MediaContainer.manifest
      { tree := MediaContainer.tree }).1.containers.map fun unit => unit.outcome.toOption) =
        [some ⟨⟨"archive", "media/"⟩, 1⟩] := by
  decide +kernel

/-- The copy in the archive has the bytes that the blob had and still has. -/
theorem run_duplicates_media :
    MediaContainer.tree.IsWellFormed ∧ ∃ unit,
      (MediaContainer.intoArchive.execute .run MediaContainer.manifest
          { tree := MediaContainer.tree }).1.containers[0]? =
        some ⟨unit, .ok ⟨⟨"archive", "media/"⟩, 1⟩⟩ ∧
      Duplicates MediaContainer.store "media" ⟨"archive", "media/"⟩ "a" MediaContainer.tree
        (MediaContainer.intoArchive.migrateContainer .run { name := "media" }
          { tree := MediaContainer.tree }).2.tree := by
  have hformed : MediaContainer.tree.IsWellFormed := by decide +kernel
  obtain ⟨unit, hunit⟩ := exists_report_of_outcomes archive_outcome
  refine ⟨hformed, unit, hunit, ?_⟩
  obtain ⟨container, hcontainer, _, hcases⟩ := run_duplicates_containers
    MediaContainer.intoArchive MediaContainer.manifest { tree := MediaContainer.tree } hformed hunit
  obtain rfl : { name := "media" } = container := Option.some.inj hcontainer
  have hbefore : MediaContainer.intoArchive.sessionBeforeContainer MediaContainer.manifest 0
      { tree := MediaContainer.tree } = { tree := MediaContainer.tree } := by
    rw [sessionBeforeContainer, sessionBefore, List.take_zero, attempt]
    rfl
  rw [hbefore] at hcases
  rcases hcases with ⟨hplace, _⟩ | ⟨blobs, hlist, _, _, hapart, hduplicates⟩
  · exact absurd hplace (by decide)
  · have hlisted : MediaContainer.store.list "media" MediaContainer.tree = .ok ["a"] := by
      decide +kernel
    obtain rfl : ["a"] = blobs := Except.ok.inj (hlisted.symm.trans hlist)
    have hplain : MediaContainer.tree.IsPlain := by decide +kernel
    have hother : LeavesSources "media" ⟨"archive", "media/"⟩ ["a"] := .inl (by decide)
    exact hduplicates (hapart hplain hother) "a" (by simp)

/-- The container is reported as migrated, and its blob is empty. -/
theorem copy_onto_itself_loses_blob :
    let run := MediaContainer.ontoItself.execute .run MediaContainer.manifest
      { tree := MediaContainer.tree }
    (run.1.containers.map fun unit => unit.outcome.toOption) =
        [some ⟨⟨"media", "/"⟩, 1⟩] ∧
      MediaContainer.store.list "media" MediaContainer.tree = .ok ["a"] ∧
      MediaContainer.store.stored? "media" "a" MediaContainer.tree =
        some (["store", "media", "a"], [1, 2, 3]) ∧
      MediaContainer.store.stored? "media" "a" run.2.tree =
        some (["store", "media", "a"], []) := by
  decide +kernel

end Migration

end MediaMigration
