import MediaMigration.Proofs.Migration.Lasting

/-!
# A cancelled run is a beginning of the whole run

Two runs are compared, one that is cancelled after so many writing calls and one that is
never cancelled. Until the last of these calls has returned the two are the same run in the
same session. From then on the cancelled run stands still: the unit in progress may make one
more writing call, which fails before it touches a file, and no later unit is attempted.
-/

namespace MediaMigration

open BlobStore

namespace Session

/-- The session is before the moment of a cancellation. -/
structure IsBefore (session : Session) (count : Nat) : Prop where
  fewer : session.writeCalls < count
  no_looks : session.spareLooks = 0

/-- The moment of a cancellation: the call after which it comes has just returned. -/
structure IsMoment (session : Session) (count : Nat) : Prop where
  writeCalls_eq : session.writeCalls = count
  no_looks : session.spareLooks = 0
  last_call : ∃ earlier logged, session.log = earlier ++ [logged] ∧
    logged.call.writes = true ∧ logged.tree = session.tree

/-- A session that has stood still since an earlier one: no file was touched, and at most
one writing call was made, which has failed. -/
structure StandsStillIn (moment later : Session) : Prop where
  tree_eq : later.tree = moment.tree
  looks_eq : later.spareLooks = moment.spareLooks
  log_eq : ∃ refused, later.log = moment.log ++ refused ∧ refused.length ≤ 1 ∧
    ∀ logged ∈ refused, logged.call.writes = true ∧ logged.failure?.isSome = true

/-- Two runs have parted at the moment of the cancellation of the first. -/
def PartedAt (count : Nat) (stopped whole : Session) : Prop :=
  ∃ moment : Session, moment.IsMoment count ∧ moment.StandsStillIn stopped ∧
    moment.log <+: whole.log

variable {session : Session} {count : Nat} {store : BlobStore} {container blob : String}

theorem IsBefore.of_same {later : Session} (h : session.IsBefore count)
    (hlog : later.log = session.log) (hlooks : later.spareLooks = session.spareLooks) :
    later.IsBefore count := by
  have hcalls : later.writeCalls = session.writeCalls := by
    rw [writeCalls, writeCalls, calls, calls, hlog]
  exact ⟨hcalls ▸ h.fewer, hlooks.trans h.no_looks⟩

theorem IsBefore.write_returned {α : Type} (h : session.IsBefore count) {call : StoreCall}
    (hwrites : call.writes = true) (result : Except MigrationError α) (tree : FileTree) :
    (session.returned call result tree).2.IsBefore count ∨
      (session.returned call result tree).2.IsMoment count := by
  have hcalls := session.writeCalls_returned call result tree
  rw [hwrites, if_pos rfl] at hcalls
  have hfewer := h.fewer
  by_cases hlast : session.writeCalls + 1 = count
  · right
    exact ⟨hcalls.trans hlast, h.no_looks, session.log, _, rfl, hwrites, rfl⟩
  · left
    refine ⟨?_, h.no_looks⟩
    rw [hcalls]
    omega

theorem IsBefore.list_returned {α : Type} (h : session.IsBefore count) (container : String)
    (result : Except MigrationError α) (tree : FileTree) :
    (session.returned (.list container) result tree).2.IsBefore count := by
  have hcalls := session.writeCalls_returned (.list container) result tree
  have hno : (StoreCall.list container).writes = false := rfl
  rw [hno] at hcalls
  exact ⟨hcalls ▸ h.fewer, h.no_looks⟩

/-! ## Before the moment the token makes no difference -/

theorem IsBefore.not_cancelled (h : session.IsBefore count) :
    session.isCancelled (some count) = false := by
  have hfewer := h.fewer
  have hnot : ¬ count < session.writeCalls := by omega
  have hne : count ≠ session.writeCalls := by omega
  simp [isCancelled, hnot, hne]

theorem IsBefore.looked_eq (h : session.IsBefore count) :
    session.looked (some count) = session := by
  have hfewer := h.fewer
  have hne : some count ≠ some session.writeCalls := by
    intro heq
    have := Option.some.inj heq
    omega
  rw [looked, if_neg hne]

theorem IsBefore.cancellation_eq (h : session.IsBefore count) :
    session.cancellation (some count) = session.cancellation none := by
  have hfewer := h.fewer
  have hnot : ¬ count < session.writeCalls := by omega
  have hne : count ≠ session.writeCalls := by omega
  simp only [cancellation, if_neg hnot, if_neg hne]

theorem IsBefore.upload_eq (h : session.IsBefore count) (content : Content) :
    session.upload store (some count) container blob content =
      session.upload store none container blob content := by
  rw [upload, upload, h.cancellation_eq]

theorem IsBefore.copy_eq (h : session.IsBefore count) (fromContainer fromBlob : String) :
    session.copy store (some count) container blob fromContainer fromBlob =
      session.copy store none container blob fromContainer fromBlob := by
  rw [copy, copy, h.cancellation_eq]

/-! ## From the moment on everything is refused -/

theorem StandsStillIn.refl (session : Session) : session.StandsStillIn session :=
  ⟨rfl, rfl, [], (List.append_nil _).symm, by simp, by simp⟩

theorem StandsStillIn.of_refused {α : Type} {call : StoreCall} (hwrites : call.writes = true)
    (error : MigrationError) :
    session.StandsStillIn (session.returned call (.error error : Except MigrationError α)
      session.tree).2 := by
  refine ⟨rfl, rfl, _, rfl, Nat.le_refl _, ?_⟩
  intro logged hmem
  rw [List.mem_singleton] at hmem
  rw [hmem]
  exact ⟨hwrites, rfl⟩

theorem writeCalls_le_of_prefix {later : Session} (h : session.log <+: later.log) :
    session.writeCalls ≤ later.writeCalls := by
  obtain ⟨more, hmore⟩ := h
  rw [writeCalls, writeCalls, calls, calls, ← hmore, List.map_append, List.countP_append]
  exact Nat.le_add_right _ _

theorem StandsStillIn.log_prefix {later : Session} (h : session.StandsStillIn later) :
    session.log <+: later.log := by
  obtain ⟨refused, hlog, _, _⟩ := h.log_eq
  rw [hlog]
  exact List.prefix_append _ refused

theorem IsMoment.isCancelled {later : Session} (h : session.IsMoment count)
    (hstill : session.StandsStillIn later) : later.isCancelled (some count) = true := by
  have hle := writeCalls_le_of_prefix hstill.log_prefix
  rw [h.writeCalls_eq] at hle
  have hlooks := hstill.looks_eq.trans h.no_looks
  by_cases hlast : count = later.writeCalls
  · simp [Session.isCancelled, ← hlast, hlooks]
  · have hless : count < later.writeCalls := by omega
    simp [Session.isCancelled, hless]

theorem PartedAt.isCancelled {stopped whole : Session} (h : PartedAt count stopped whole) :
    stopped.isCancelled (some count) = true := by
  obtain ⟨moment, hmoment, hstill, _⟩ := h
  exact hmoment.isCancelled hstill

theorem PartedAt.later {stopped whole last : Session} (h : PartedAt count stopped whole)
    (hgrows : whole.log <+: last.log) : PartedAt count stopped last := by
  obtain ⟨moment, hmoment, hstill, hlog⟩ := h
  exact ⟨moment, hmoment, hstill, hlog.trans hgrows⟩

theorem IsMoment.cancellation_eq (h : session.IsMoment count) :
    session.cancellation (some count) = .beforehand := by
  have hnot : ¬ count < session.writeCalls := by
    rw [h.writeCalls_eq]
    omega
  simp only [cancellation, if_neg hnot, if_pos h.writeCalls_eq.symm, h.no_looks]
  rfl

theorem copy_beforehand (store : BlobStore) (container blob fromContainer fromBlob : String)
    (tree : FileTree) :
    ∃ error, store.copy container blob fromContainer fromBlob .beforehand tree =
      (.error error, tree) := by
  rcases store.copy_cases container blob fromContainer fromBlob .beforehand tree with
    hfailed | ⟨_, _, _, _, _, hcopy⟩
  · exact hfailed
  · rw [hcopy, upload_cancelled_beforehand rfl]
    exact ⟨.cancelled, rfl⟩

theorem IsMoment.upload_refused (h : session.IsMoment count) (store : BlobStore)
    (container blob : String) (content : Content) :
    ∃ error last, session.upload store (some count) container blob content =
      (.error error, last) ∧ session.StandsStillIn last := by
  rw [upload, h.cancellation_eq, upload_cancelled_beforehand rfl]
  exact ⟨.cancelled, _, rfl, .of_refused (α := Nat) rfl .cancelled⟩

theorem IsMoment.copy_refused (h : session.IsMoment count) (store : BlobStore)
    (container blob fromContainer fromBlob : String) :
    ∃ error last, session.copy store (some count) container blob fromContainer fromBlob =
      (.error error, last) ∧ session.StandsStillIn last := by
  obtain ⟨error, hcopy⟩ :=
    copy_beforehand store container blob fromContainer fromBlob session.tree
  rw [copy, h.cancellation_eq, hcopy]
  exact ⟨error, _, rfl, .of_refused (α := Nat) rfl error⟩

end Session

namespace Migration

open Session

def cancelledAfter (migration : Migration) (count : Nat) : Migration :=
  { migration with cancelAfter? := some count }

def uncancelled (migration : Migration) : Migration :=
  { migration with cancelAfter? := none }

/-- A step of a run that is cancelled and the same step of the whole run: both end alike
before the moment, or they have parted. -/
def SameOrParted {α : Type} (count : Nat) (stopped whole : α × Session) : Prop :=
  (stopped = whole ∧ whole.2.IsBefore count) ∨ PartedAt count stopped.2 whole.2

variable {migration : Migration} {count : Nat} {session : Session}

/-- What is made of a result does not matter where the session is left as it is. -/
theorem SameOrParted.andThen {α β : Type} {stopped whole : α × Session}
    (h : SameOrParted count stopped whole) (f : α × Session → β × Session)
    (hsession : ∀ found, (f found).2 = found.2) :
    SameOrParted count (f stopped) (f whole) := by
  rcases h with ⟨heq, hbefore⟩ | hparted
  · left
    rw [heq, hsession]
    exact ⟨rfl, hbefore⟩
  · right
    rw [hsession, hsession]
    exact hparted

def addingBytes (written : Nat) :
    Except MigrationError Nat × Session → Except MigrationError Nat × Session
  | (.error error, last) => (.error error, last)
  | (.ok bytes, last) => (.ok (written + bytes), last)

def reportingCopy (copy : ContainerCopy) :
    Except MigrationError Unit × Session → Except MigrationError ContainerCopy × Session
  | (.error error, last) => (.error error, last)
  | (.ok (), last) => (.ok copy, last)

def reportingUpload (placement : Placement) (blobs : List String) :
    Except MigrationError Nat × Session → Except MigrationError AssetUpload × Session
  | (.error error, last) => (.error error, last)
  | (.ok bytes, last) => (.ok ⟨placement, blobs, bytes⟩, last)

theorem SameOrParted.of_before {α : Type} (result : α) (h : session.IsBefore count) :
    SameOrParted count (result, session) (result, session) :=
  .inl ⟨rfl, h⟩

theorem SameOrParted.of_returned {α : Type} (result : α)
    (h : session.IsBefore count ∨ session.IsMoment count) :
    SameOrParted count (result, session) (result, session) := by
  rcases h with hbefore | hmoment
  · exact .of_before result hbefore
  · exact .inr ⟨session, hmoment, .refl session, List.prefix_refl _⟩

/-- Before the moment both runs get the same answer to a copy, after which the moment may have
come. -/
theorem copy_same (migration : Migration) (h : session.IsBefore count)
    (container blob fromContainer fromBlob : String) :
    ∃ result middle,
      session.copy (migration.cancelledAfter count).store
          (migration.cancelledAfter count).cancelAfter? container blob fromContainer fromBlob =
        (result, middle) ∧
      session.copy migration.uncancelled.store migration.uncancelled.cancelAfter? container
          blob fromContainer fromBlob =
        (result, middle) ∧
      (middle.IsBefore count ∨ middle.IsMoment count) :=
  ⟨_, _, h.copy_eq fromContainer fromBlob, rfl, h.write_returned rfl _ _⟩

theorem upload_same (migration : Migration) (h : session.IsBefore count)
    (container blob : String) (content : Content) :
    ∃ result middle,
      session.upload (migration.cancelledAfter count).store
          (migration.cancelledAfter count).cancelAfter? container blob content =
        (result, middle) ∧
      session.upload migration.uncancelled.store migration.uncancelled.cancelAfter? container
          blob content =
        (result, middle) ∧
      (middle.IsBefore count ∨ middle.IsMoment count) :=
  ⟨_, _, h.upload_eq content, rfl, h.write_returned rfl _ _⟩

/-! ## Loops over blobs and files -/

theorem copyBlobs_stands_still (h : session.IsMoment count) (container : String)
    (placement : Placement) (blobs : List String) :
    session.StandsStillIn
      ((migration.cancelledAfter count).copyBlobs container placement blobs session).2 := by
  cases blobs with
  | nil => exact .refl session
  | cons blob rest =>
      obtain ⟨error, last, hcopy, hstill⟩ :=
        h.copy_refused migration.store placement.container (placement.blobName blob) container
          blob
      have hfirst : session.copy (migration.cancelledAfter count).store
          (migration.cancelledAfter count).cancelAfter? placement.container
          (placement.blobName blob) container blob = (.error error, last) := hcopy
      rw [copyBlobs, hfirst]
      exact hstill

theorem uploadFiles_stands_still (h : session.IsMoment count) (placement : Placement)
    (files : List CollectedFile) :
    session.StandsStillIn
      ((migration.cancelledAfter count).uploadFiles placement files session).2 := by
  cases files with
  | nil => exact .refl session
  | cons file rest =>
      unfold uploadFiles
      split
      · exact .refl session
      · next place entry _ =>
          obtain ⟨error, last, hupload, hstill⟩ :=
            h.upload_refused migration.store placement.container (placement.blobName file.name)
              (.fileAt place)
          have hfirst : session.upload (migration.cancelledAfter count).store
              (migration.cancelledAfter count).cancelAfter? placement.container
              (placement.blobName file.name) (.fileAt place) = (.error error, last) := hupload
          rw [hfirst]
          exact hstill

theorem copyBlobs_same_or_parted (migration : Migration) (h : session.IsBefore count)
    (container : String) (placement : Placement) (blobs : List String) :
    SameOrParted count
      ((migration.cancelledAfter count).copyBlobs container placement blobs session)
      (migration.uncancelled.copyBlobs container placement blobs session) := by
  induction blobs generalizing session with
  | nil => exact .of_before _ h
  | cons blob rest ih =>
      obtain ⟨result, middle, hstopped, hwhole, hreturned⟩ :=
        copy_same migration h placement.container (placement.blobName blob) container blob
      rw [copyBlobs, copyBlobs, hstopped, hwhole]
      cases result with
      | error error => exact .of_returned _ hreturned
      | ok written =>
          rcases hreturned with hbefore | hmoment
          · exact ih hbefore
          · -- the copy was the last before the cancellation
            refine .inr ⟨middle, hmoment, copyBlobs_stands_still hmoment _ _ rest, ?_⟩
            exact (log_grows migration.uncancelled .run).copyBlobs rfl _ _ rest middle

theorem uploadFiles_same_or_parted (migration : Migration) (h : session.IsBefore count)
    (placement : Placement) (files : List CollectedFile) :
    SameOrParted count
      ((migration.cancelledAfter count).uploadFiles placement files session)
      (migration.uncancelled.uploadFiles placement files session) := by
  induction files generalizing session with
  | nil => exact .of_before _ h
  | cons file rest ih =>
      rw [uploadFiles, uploadFiles]
      cases session.tree.lookUp true file.path with
      | error error => exact .of_before _ h
      | ok found =>
          obtain ⟨place, entry⟩ := found
          obtain ⟨result, middle, hstopped, hwhole, hreturned⟩ :=
            upload_same migration h placement.container (placement.blobName file.name)
              (.fileAt place)
          simp only [hstopped, hwhole]
          cases result with
          | error error => exact .of_returned _ hreturned
          | ok written =>
              have hrest : SameOrParted count
                  ((migration.cancelledAfter count).uploadFiles placement rest middle)
                  (migration.uncancelled.uploadFiles placement rest middle) := by
                rcases hreturned with hbefore | hmoment
                · exact ih hbefore
                · refine .inr ⟨middle, hmoment, uploadFiles_stands_still hmoment _ rest, ?_⟩
                  exact (log_grows migration.uncancelled .run).uploadFiles rfl _ rest middle
              apply hrest.andThen (addingBytes written)
              rintro ⟨_ | _, last⟩
              · rfl
              · rfl

/-! ## One unit -/

theorem migrateContainer_same_or_parted (migration : Migration) (h : session.IsBefore count)
    (container : Container) :
    SameOrParted count
      ((migration.cancelledAfter count).migrateContainer .run container session)
      (migration.uncancelled.migrateContainer .run container session) := by
  unfold migrateContainer
  have htemplates : (migration.cancelledAfter count).templates =
    migration.uncancelled.templates := rfl
  rw [htemplates]
  cases session.mapper.expandContainer container
      migration.uncancelled.templates.container.text with
  | mk answer mapper =>
      have hmapped : Session.IsBefore { session with mapper } count := h.of_same rfl rfl
      cases answer with
      | error error => exact .of_before _ hmapped
      | ok placement =>
          simp only
          split
          · exact .of_before _ hmapped
          · have hlist : ({ session with mapper } : Session).list
                (migration.cancelledAfter count).store container.name =
              ({ session with mapper } : Session).list migration.uncancelled.store
                container.name := rfl
            have hlisted : (({ session with mapper } : Session).list migration.uncancelled.store
                container.name).2.IsBefore count :=
              hmapped.list_returned _ _ _
            rw [hlist]
            cases hresult : ({ session with mapper } : Session).list
                migration.uncancelled.store container.name with
            | mk result listed =>
                rw [hresult] at hlisted
                cases result with
                | error error => exact .of_before _ hlisted
                | ok blobs =>
                    have hcopied := copyBlobs_same_or_parted migration hlisted
                      container.name placement blobs
                    apply hcopied.andThen (reportingCopy ⟨placement, blobs.length⟩)
                    rintro ⟨_ | _, last⟩
                    · rfl
                    · rfl

theorem migrateAsset_same_or_parted (migration : Migration) (h : session.IsBefore count)
    (manifest : Manifest) (entry : AssetEntry) :
    SameOrParted count
      ((migration.cancelledAfter count).migrateAsset .run manifest entry session)
      (migration.uncancelled.migrateAsset .run manifest entry session) := by
  unfold migrateAsset
  have htemplates : (migration.cancelledAfter count).templates =
    migration.uncancelled.templates := rfl
  have hroot : (migration.cancelledAfter count).sourceRoot =
    migration.uncancelled.sourceRoot := rfl
  rw [htemplates, hroot]
  cases session.mapper.expandAsset entry.asset (.ofManifest manifest)
      migration.uncancelled.templates.path.text with
  | mk expanded mapper =>
      have hmapped : Session.IsBefore { session with mapper } count := h.of_same rfl rfl
      obtain ⟨answer, lookups⟩ := expanded
      cases answer with
      | error error => exact .of_before _ hmapped
      | ok placement =>
          simp only
          cases CollectedFile.collect session.tree migration.uncancelled.sourceRoot
              entry.files with
          | error error => exact .of_before _ hmapped
          | ok files =>
              have huploaded := uploadFiles_same_or_parted migration hmapped
                placement files
              apply huploaded.andThen
                (reportingUpload placement (files.map fun file => placement.blobName file.name))
              rintro ⟨_ | _, last⟩
              · rfl
              · rfl

theorem mapKey_same_or_parted (migration : Migration) (h : session.IsBefore count)
    (key : ContentKey) :
    SameOrParted count ((migration.cancelledAfter count).mapKey key session)
      (migration.uncancelled.mapKey key session) := by
  have hsame : (migration.cancelledAfter count).mapKey key session =
    migration.uncancelled.mapKey key session := rfl
  have hbefore : (migration.uncancelled.mapKey key session).2.IsBefore count := by
    unfold mapKey
    cases session.mapper.expandKey key
        (migration.uncancelled.templates.key.map Template.text) with
    | mk answer mapper =>
        cases answer with
        | error error => exact h.of_same rfl rfl
        | ok name =>
            cases migration.uncancelled.templates.keyAddress with
            | none => exact h.of_same rfl rfl
            | some template =>
                simp only
                split
                · exact h.of_same rfl rfl
                · exact h.of_same rfl rfl
  rw [hsame]
  exact .of_before _ hbefore

theorem migrateUnit_same_or_parted (migration : Migration) (h : session.IsBefore count)
    (manifest : Manifest) (unit : MigrationUnit) :
    SameOrParted count
      ((migration.cancelledAfter count).migrateUnit .run manifest unit session)
      (migration.uncancelled.migrateUnit .run manifest unit session) := by
  cases unit with
  | container container =>
      exact (migrateContainer_same_or_parted migration h container).andThen
        (fun found => (found.1.map UnitTarget.container, found.2)) fun _ => rfl
  | asset entry =>
      exact (migrateAsset_same_or_parted migration h manifest entry).andThen
        (fun found => (found.1.map UnitTarget.asset, found.2)) fun _ => rfl
  | key key =>
      exact (mapKey_same_or_parted migration h key).andThen
        (fun found => (found.1.map UnitTarget.key, found.2)) fun _ => rfl

/-! ## All units -/

/-- The runs part in the unit behind the first `index` ones: it is the last unit that the
cancelled run reports, and what it leaves is what the run leaves. -/
structure PartsIn (migration : Migration) (manifest : Manifest) (units : List MigrationUnit)
    (count index : Nat) (session : Session) : Prop where
  before : ((migration.cancelledAfter count).attemptUnits .run manifest (units.take index)
    session).2.IsBefore count
  parted : PartedAt count
    ((migration.cancelledAfter count).attemptUnits .run manifest units session).2
    (migration.uncancelled.attemptUnits .run manifest units session).2
  reported : ((migration.cancelledAfter count).attemptUnits .run manifest units
    session).1.1.length = index + 1
  left : ∀ later, index < later →
    ((migration.cancelledAfter count).attemptUnits .run manifest (units.take later) session).2 =
      ((migration.cancelledAfter count).attemptUnits .run manifest units session).2

theorem attemptUnits_cons_of_before (migration : Migration) (h : session.IsBefore count)
    (manifest : Manifest) (unit : MigrationUnit) (rest : List MigrationUnit) :
    (migration.cancelledAfter count).attemptUnits .run manifest (unit :: rest) session =
      let first := (migration.cancelledAfter count).migrateUnit .run manifest unit session
      let others := (migration.cancelledAfter count).attemptUnits .run manifest rest first.2
      ((⟨unit.name, first.1⟩ :: others.1.1, others.1.2), others.2) := by
  have hlooked : session.looked (migration.cancelledAfter count).cancelAfter? = session :=
    h.looked_eq
  rw [attemptUnits_cons h.not_cancelled, hlooked]

theorem attemptUnits_cons_uncancelled (migration : Migration) (manifest : Manifest)
    (session : Session) (unit : MigrationUnit) (rest : List MigrationUnit) :
    migration.uncancelled.attemptUnits .run manifest (unit :: rest) session =
      let first := migration.uncancelled.migrateUnit .run manifest unit session
      let others := migration.uncancelled.attemptUnits .run manifest rest first.2
      ((⟨unit.name, first.1⟩ :: others.1.1, others.1.2), others.2) :=
  attemptUnits_cons rfl unit rest

variable {manifest : Manifest} {unit : MigrationUnit} {rest : List MigrationUnit}

/-- The moment comes while the first unit is in progress: all others find the run
cancelled. -/
theorem PartedAt.partsIn (h : session.IsBefore count)
    (hparted : PartedAt count
      ((migration.cancelledAfter count).migrateUnit .run manifest unit session).2
      (migration.uncancelled.migrateUnit .run manifest unit session).2) :
    PartsIn migration manifest (unit :: rest) count 0 session := by
  have hskip : ∀ others,
      (migration.cancelledAfter count).attemptUnits .run manifest (unit :: others) session =
        let first := (migration.cancelledAfter count).migrateUnit .run manifest unit session
        (([⟨unit.name, first.1⟩], !others.isEmpty), first.2) := by
    intro others
    have hothers : (migration.cancelledAfter count).attemptUnits .run manifest others
          ((migration.cancelledAfter count).migrateUnit .run manifest unit session).2 =
        (([], !others.isEmpty),
          ((migration.cancelledAfter count).migrateUnit .run manifest unit session).2) :=
      attempt_of_cancelled hparted.isCancelled
    rw [attemptUnits_cons_of_before migration h]
    simp only [hothers]
  have hwhole := attemptUnits_cons_uncancelled migration manifest session unit rest
  refine ⟨h, ?_, ?_, ?_⟩
  · rw [hskip, hwhole]
    exact hparted.later ((log_grows migration.uncancelled .run).attemptUnits manifest rest _)
  · rw [hskip]
    rfl
  · intro later hlater
    obtain ⟨fewer, rfl⟩ : ∃ fewer, later = fewer + 1 := ⟨later - 1, by omega⟩
    rw [List.take_succ_cons, hskip, hskip]

/-- A unit that is over before the moment comes in front of the units in which the runs
part. -/
theorem PartsIn.cons {index : Nat} (h : session.IsBefore count)
    (hsame : (migration.cancelledAfter count).migrateUnit .run manifest unit session =
      migration.uncancelled.migrateUnit .run manifest unit session)
    (hparts : PartsIn migration manifest rest count index
      (migration.uncancelled.migrateUnit .run manifest unit session).2) :
    PartsIn migration manifest (unit :: rest) count (index + 1) session := by
  have hstopped := attemptUnits_cons_of_before migration h manifest unit
  rw [hsame] at hstopped
  have hwhole := attemptUnits_cons_uncancelled migration manifest session unit rest
  refine ⟨?_, ?_, ?_, ?_⟩
  · rw [List.take_succ_cons, hstopped]
    exact hparts.before
  · rw [hstopped, hwhole]
    exact hparts.parted
  · rw [hstopped, List.length_cons]
    exact congrArg (· + 1) hparts.reported
  · intro later hlater
    obtain ⟨fewer, rfl⟩ : ∃ fewer, later = fewer + 1 := ⟨later - 1, by omega⟩
    rw [List.take_succ_cons, hstopped, hstopped]
    exact hparts.left fewer (by omega)

theorem attemptUnits_same_or_part (migration : Migration) (h : session.IsBefore count)
    (manifest : Manifest) (units : List MigrationUnit) :
    ((migration.cancelledAfter count).attemptUnits .run manifest units session =
        migration.uncancelled.attemptUnits .run manifest units session ∧
      (migration.uncancelled.attemptUnits .run manifest units session).2.IsBefore count) ∨
    ∃ index, PartsIn migration manifest units count index session := by
  induction units generalizing session with
  | nil => exact .inl ⟨rfl, h⟩
  | cons unit rest ih =>
      rcases migrateUnit_same_or_parted migration h manifest unit with
        ⟨hsame, hbefore⟩ | hparted
      · rcases ih hbefore with ⟨hrest, hlast⟩ | ⟨index, hparts⟩
        · left
          rw [attemptUnits_cons_of_before migration h, attemptUnits_cons_uncancelled, hsame]
          simp only [hrest]
          exact ⟨trivial, hlast⟩
        · exact .inr ⟨index + 1, hparts.cons h hsame⟩
      · exact .inr ⟨0, PartedAt.partsIn h hparted⟩

/-! ## The whole run -/

/-- A log that ends with its writing call of this number, and the tree that this call has
left. Before any call the tree is that of the start. -/
inductive EndsWithWrite (start : FileTree) : Nat → List LoggedCall → FileTree → Prop
  | none : EndsWithWrite start 0 [] start
  | last {earlier : List LoggedCall} {logged : LoggedCall} (hwrites : logged.call.writes = true) :
      EndsWithWrite start ((earlier ++ [logged]).countP fun other => other.call.writes)
        (earlier ++ [logged]) logged.tree

theorem EndsWithWrite.of_moment {start : FileTree} {moment : Session}
    (h : moment.IsMoment count) : EndsWithWrite start count moment.log moment.tree := by
  obtain ⟨earlier, logged, hlog, hwrites, htree⟩ := h.last_call
  have hcount := h.writeCalls_eq
  rw [writeCalls, calls, List.countP_map, hlog] at hcount
  rw [hlog, ← htree, ← hcount]
  exact .last hwrites

/-- A run that is cancelled when so many writing calls have returned makes the same calls as
the whole run up to the last of these and then leaves the tree as it is. Only the unit in
progress may make one more writing call, which is refused; the units behind it make none. A
run with fewer writing calls is not cancelled at all. -/
theorem cancellation_freezes_the_store (migration : Migration) (count : Nat)
    (manifest : Manifest) (tree : FileTree) :
    let stopping := migration.cancelledAfter count
    let stopped := stopping.execute .run manifest { tree }
    let whole := migration.uncancelled.execute .run manifest { tree }
    (whole.2.writeCalls < count ∧ stopped.1.units = whole.1.units ∧ stopped.2 = whole.2) ∨
      ∃ before refused rest,
        stopped.2.log = before ++ refused ∧ whole.2.log = before ++ rest ∧
          EndsWithWrite tree count before stopped.2.tree ∧
          refused.length ≤ 1 ∧
          (∀ logged ∈ refused, logged.call.writes = true ∧ logged.failure?.isSome = true) ∧
          (count = 0 → stopped.1.units = [] ∧ refused = []) ∧
          (0 < count → ∃ index, stopped.1.units.length = index + 1 ∧
            (stopping.sessionAfter .run manifest index { tree }).writeCalls < count) ∧
          ∀ attempted, stopped.1.units.length ≤ attempted →
            stopping.sessionAfter .run manifest attempted { tree } = stopped.2 := by
  simp only [units_execute, session_execute]
  by_cases hzero : count = 0
  · -- nothing is attempted, so the session of the start stays as it is
    have hnone : ∀ units : List MigrationUnit,
        (migration.cancelledAfter count).attemptUnits .run manifest units { tree } =
          (([], !units.isEmpty), { tree }) := by
      intro units
      rw [hzero]
      exact attempt_of_cancelled rfl
    right
    refine ⟨[], [], _, ?_, rfl, ?_, Nat.zero_le 1, by simp, ?_, by omega, ?_⟩
    · rw [hnone]
      rfl
    · rw [hnone, hzero]
      exact .none
    · intro _
      rw [hnone]
      exact ⟨rfl, rfl⟩
    · intro attempted _
      rw [sessionAfter, hnone, hnone]
  · have hbefore : Session.IsBefore { tree } count := ⟨Nat.pos_of_ne_zero hzero, rfl⟩
    rcases attemptUnits_same_or_part migration hbefore manifest manifest.units
      with ⟨hsame, hlast⟩ | ⟨index, hparts⟩
    · left
      rw [hsame]
      exact ⟨hlast.fewer, rfl, rfl⟩
    · right
      obtain ⟨moment, hmoment, hstill, rest, hrest⟩ := hparts.parted
      obtain ⟨refused, hlog, hone, hrefused⟩ := hstill.log_eq
      refine ⟨moment.log, refused, rest, hlog, hrest.symm, ?_, hone, hrefused,
        fun h => absurd h hzero, fun _ => ⟨index, hparts.reported, hparts.before.fewer⟩, ?_⟩
      · rw [hstill.tree_eq]
        exact .of_moment hmoment
      · intro attempted hattempted
        rw [hparts.reported] at hattempted
        exact hparts.left attempted hattempted

end Migration

end MediaMigration
